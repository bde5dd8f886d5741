import MonkeyLang.Proofs.Eval.ErrorFree
import MonkeyLang.Proofs.Eval.Frame
import MonkeyLang.Proofs.Eval.Written
import MonkeyLang.Proofs.Session.Lines
import MonkeyLang.Proofs.Text.ByteOrder

/-!
# The listing of names

The listing of a session and a line that is a name ask the same question in two ways: the listing
goes through the bindings of the session and the builtins, the line is a program that looks the name
up from the scope of the session outwards. They agree because in every session the scope of its
lines is inside no other one and binds names only, and to no error value (`Sound`). So the names
listed are those that have a value, each with the text that the name prints as a line
(`listing_tells_names`). A string is printed bare, and it may be the very sentence that is printed
for a name without a value: by its reply alone the one is not told from the other
(`listing_of_error_text`).
-/

namespace MonkeyLang

/-! ## Names as sources -/

theorem toNat_le_of_isLetter {c : Char} (h : isLetter c = true) : c.toNat ≤ 122 := by
  have h' : (decide (65 ≤ c.val ∧ c.val ≤ 90) || (97 ≤ c.val && c.val ≤ 122) || c == '_') =
      true := h
  simp only [Bool.or_eq_true, Bool.and_eq_true, decide_eq_true_eq, beq_iff_eq,
    UInt32.le_iff_toNat_le] at h'
  rcases h' with (⟨-, h⟩ | ⟨-, h⟩) | rfl
  · exact Nat.le_trans h (by decide)
  · exact h
  · decide

theorem Blank.isBlank_of_isLetter {c : Char} (h : isLetter c = true) : isBlank c = false := by
  have := Token.le_toNat_of_isLetter h
  have := toNat_le_of_isLetter h
  simp only [isBlank, ranges, List.any_cons, List.any_nil, Bool.or_false, Bool.or_eq_false_iff,
    Bool.and_eq_false_iff, decide_eq_false_iff_not]
  omega

/-- Nothing is taken off a text without blanks. -/
theorem Blank.trim_eq {text : String} (h : ∀ c ∈ text.toList, isBlank c = false) :
    trim text = text := by
  have hdrop : ∀ cs : List Char, (∀ c ∈ cs, isBlank c = false) → cs.dropWhile isBlank = cs := by
    intro cs hcs
    cases cs with
    | nil => rfl
    | cons c cs => exact List.dropWhile_cons_of_neg (by simp [hcs c List.mem_cons_self])
  rw [trim, trimChars, hdrop _ h, hdrop _ fun c hc => h c (List.mem_reverse.1 hc),
    List.reverse_reverse, String.ofList_toList]

namespace IsName

variable {x : String} (h : IsName x)
include h

theorem isLine : Session.IsLine x where
  trim_eq := Blank.trim_eq fun c hc => Blank.isBlank_of_isLetter (h.isLetter c hc)
  not_command hx := by
    have hcolon : ':' ∈ x.toList := by
      simp only [Session.commands, List.mem_cons, List.not_mem_nil, or_false] at hx
      rcases hx with rfl | rfl | rfl | rfl | rfl <;> decide
    exact absurd (h.isLetter ':' hcolon) (by decide)

/-- A name is read as an identifier. -/
theorem parse_eq :
    (parse x).errors = [] ∧ (parse x).program = ⟨[.expression (.identifier x)]⟩ := by
  have hp : (Program.mk [.expression (.identifier x)]).WellFormed := ⟨h, trivial⟩
  have hread := parse_of_isProgram (Program.isProgram_render hp)
  rwa [Program.render_expression] at hread

end IsName

/-! ## Texts that are shown -/

/-- The text that is shown for a name without a value. -/
def notFoundText (x : String) : String := "ERROR: identifier not found: " ++ x

theorem head_notFoundText (x : String) : (notFoundText x).toList.head? = some 'E' := by
  have hhead : "ERROR: identifier not found: ".toList.head? = some 'E' := by decide +kernel
  unfold notFoundText
  rw [String.toList_append, List.head?_append, hhead, Option.some_or]

theorem Decimal.head_render_ne (n : Int64) : (render n).toList.head? ≠ some 'E' := by
  intro h
  rcases Int.lt_or_le n.toInt 0 with hneg | hnonneg
  · rw [render_of_neg hneg, String.toList_append] at h
    cases h
  · have hdigit := isDigit_of_mem_render hnonneg (List.mem_of_head? h)
    exact absurd hdigit (by decide)

/-- Of values that are no errors, only strings are shown by texts that begin as those of errors
do. -/
theorem Value.eq_string_of_head_inspect {v : Value} (hv : v.isError = false)
    (h : v.inspect.toList.head? = some 'E') : v = .string v.inspect := by
  cases v with
  | integer n => exact absurd h (Decimal.head_render_ne n)
  | boolean b =>
    have hbool : ∀ b : Bool, (toString b).toList.head? ≠ some 'E' := by decide
    exact absurd h (hbool b.content)
  | string c => rfl
  | null _ => exact absurd h (by simp only [inspect, String.reduceToList]; decide)
  | function f =>
    have hhead : (Value.function f).inspect.toList.head? = some 'f' := by
      simp only [inspect, Closure.render, Expr.render, String.toList_append, String.reduceToList,
        List.cons_append, List.head?_cons]
    rw [hhead] at h
    cases h
  | builtin b =>
    simp only [inspect, builtinText, String.reduceToList, List.head?_cons] at h
    cases h
  | error i message => cases hv

theorem Builtin.ofName?_eq_some_iff {x : String} {b : Builtin} :
    ofName? x = some b ↔ b.name = x := by
  cases b
  simp only [ofName?, all, List.find?_cons, List.find?_nil]
  split <;> simp_all

theorem Builtin.mem_all (b : Builtin) : b ∈ all := by
  cases b
  decide

theorem Builtin.isName_name (b : Builtin) : IsName b.name := by
  cases b
  exact ⟨by decide, List.all_eq_true.1 rfl, by decide⟩

namespace Session

/-! ## What is so in every session -/

/-- Names are bound to well-formed values that are no errors, and the scope of the lines is inside
no other one. -/
structure Sound (s : Session) : Prop where
  wellFormed : s.store.WellFormed
  errorFree : s.store.ErrorFree
  size_pos : 0 < s.store.scopes.size
  enclosing_eq_nil : (s.store.scope scope).enclosing = []

theorem sound_initial : initial.Sound where
  wellFormed := Store.wellFormed_initial
  errorFree := Store.initial_errorFree
  size_pos := by decide
  enclosing_eq_nil := rfl

variable {s s' : Session} {n : Nat} {line x : String} {response : Response}

/-- A line keeps a session sound. -/
theorem Sound.handle (hs : s.Sound) (h : s.handle n line = some (response, s')) : s'.Sound := by
  rcases handle_cases h with rfl | ⟨r, hrun⟩
  · exact hs
  · have hformed := (interpretIn_wellFormed hs.wellFormed hrun).1
    rcases interpretIn_cases hrun with ⟨-, heq⟩ | ⟨v, -, hprogram⟩
    · obtain rfl : s' = s := congrArg Session.mk heq
      exact hs
    · have hwithin : s.store.Within scope s'.store := Program.evaluate_within hprogram
      exact ⟨hformed, hs.errorFree.leads (.program .refl hprogram),
        Nat.lt_of_lt_of_le hs.size_pos hwithin.size_le,
        (hwithin.enclosing_eq scope hs.size_pos).trans hs.enclosing_eq_nil⟩

/-- So do lines in a row. -/
theorem Sound.handleAll {lines : List String} {responses : List Response} (hs : s.Sound)
    (h : handleAll n s lines = some (responses, s')) : s'.Sound := by
  induction lines generalizing s responses with
  | nil =>
    cases h
    exact hs
  | cons line lines ih =>
    rcases hline : s.handle n line with _ | ⟨response, t⟩
    · rw [Session.handleAll, hline] at h
      cases h
    · rw [handleAll_cons hline] at h
      obtain ⟨⟨others, u⟩, hrest, heq⟩ := Option.map_eq_some_iff.1 h
      cases heq
      exact ih (hs.handle hline) hrest

/-! ## The entries of the listing -/

/-- What is listed of the bindings of the session: the names, and the texts of their values. -/
def boundEntries (s : Store) : List (String × String) :=
  (s.bindings scope).entries.map fun (name, value) => (name, value.inspect)

/-- What is listed of the builtins: those that the session does not hide. -/
def builtinEntries (s : Store) : List (String × String) :=
  (Builtin.all.filter (!(s.bindings scope).contains ·.name)).map fun b =>
    (b.name, Value.builtinText)

/-- The names that are listed, with their texts. -/
def entries (s : Store) : List (String × String) := boundEntries s ++ builtinEntries s

theorem listing_eq (s : Store) :
    listing s = "\n".intercalate ((entries s).map fun e => e.1 ++ " = " ++ e.2) := by
  simp only [listing, entries, boundEntries, builtinEntries, List.map_append, List.map_map]
  rfl

section
variable {s : Store} {text : String}

theorem mem_boundEntries :
    (x, text) ∈ boundEntries s ↔ ∃ v, (s.bindings scope).get? x = some v ∧ v.inspect = text := by
  simp only [boundEntries, List.mem_map, Prod.mk.injEq, Prod.exists]
  constructor
  · rintro ⟨y, v, hmem, rfl, rfl⟩
    exact ⟨v, (Bindings.mem_entries_iff _ _ _).1 hmem, rfl⟩
  · rintro ⟨v, hv, rfl⟩
    exact ⟨x, v, (Bindings.mem_entries_iff _ _ _).2 hv, rfl, rfl⟩

theorem mem_builtinEntries :
    (x, text) ∈ builtinEntries s ↔
      (s.bindings scope).get? x = none ∧ (∃ b, Builtin.ofName? x = some b) ∧
        text = Value.builtinText := by
  simp only [builtinEntries, List.mem_map, List.mem_filter, Prod.mk.injEq,
    Builtin.ofName?_eq_some_iff, Bindings.contains, Bool.not_eq_true', Option.isSome_eq_false_iff,
    Option.isNone_iff_eq_none]
  constructor
  · rintro ⟨b, ⟨-, hnone⟩, rfl, rfl⟩
    exact ⟨hnone, ⟨b, rfl⟩, rfl⟩
  · rintro ⟨hnone, ⟨b, rfl⟩, rfl⟩
    exact ⟨b, ⟨b.mem_all, hnone⟩, rfl, rfl⟩

theorem mem_entries :
    (x, text) ∈ entries s ↔
      (∃ v, (s.bindings scope).get? x = some v ∧ v.inspect = text) ∨
        (s.bindings scope).get? x = none ∧ (∃ b, Builtin.ofName? x = some b) ∧
          text = Value.builtinText := by
  rw [entries, List.mem_append, mem_boundEntries, mem_builtinEntries]

theorem mem_names_boundEntries :
    x ∈ (boundEntries s).map (·.1) ↔ (s.bindings scope).contains x = true := by
  rw [Bindings.contains, Option.isSome_iff_exists]
  constructor
  · intro hx
    obtain ⟨⟨y, text⟩, hmem, rfl⟩ := List.mem_map.1 hx
    obtain ⟨v, hv, -⟩ := mem_boundEntries.1 hmem
    exact ⟨v, hv⟩
  · rintro ⟨v, hv⟩
    exact List.mem_map.2 ⟨(x, v.inspect), mem_boundEntries.2 ⟨v, hv, rfl⟩, rfl⟩

theorem mem_names_builtinEntries :
    x ∈ (builtinEntries s).map (·.1) ↔
      (∃ b : Builtin, b.name = x) ∧ (s.bindings scope).contains x = false := by
  simp [mem_builtinEntries, Builtin.ofName?_eq_some_iff, Bindings.contains, and_comm]

/-- The names of the session are listed in the order of their bytes. -/
theorem boundEntries_ordered (s : Store) :
    (boundEntries s).Pairwise fun e f => utf8Bytes e.1 < utf8Bytes f.1 :=
  List.pairwise_map.2 ((s.bindings scope).ordered.imp utf8Bytes_lt)

/-- No name is listed twice. -/
theorem entries_nodup (s : Store) : ((entries s).map (·.1)).Nodup := by
  have hbound : ((boundEntries s).map (·.1)).Nodup :=
    List.pairwise_map.2 ((boundEntries_ordered s).imp fun {e f} hlt (heq : e.1 = f.1) =>
      List.lt_irrefl (utf8Bytes f.1) (heq ▸ hlt))
  have hbuiltin : ((builtinEntries s).map (·.1)).Nodup := by
    rw [builtinEntries, List.map_map]
    have hall : (Builtin.all.map (·.name)).Nodup := by decide
    exact hall.sublist (List.filter_sublist.map _)
  rw [entries, List.map_append, List.nodup_append]
  refine ⟨hbound, hbuiltin, ?_⟩
  rintro _ hx y hy rfl
  obtain ⟨⟨x, text⟩, hmem, rfl⟩ := List.mem_map.1 hx
  obtain ⟨⟨y, text'⟩, hmem', rfl⟩ := List.mem_map.1 hy
  obtain ⟨v, hv, -⟩ := mem_boundEntries.1 hmem
  obtain ⟨hnone, -⟩ := mem_builtinEntries.1 hmem'
  cases hv.symm.trans hnone

end

/-! ## Names as lines -/

/-- A name as a line prints what it is bound to in the session, or a builtin, or that it is not
found. -/
theorem handle_name (hs : s.Sound) (hx : IsName x) (k : Nat) :
    s.handle (k + 2) x =
      match (s.store.bindings scope).get? x, Builtin.ofName? x with
      | some v, _ => some (.print v.inspect, s)
      | none, some _ => some (.print Value.builtinText, s)
      | none, none => some (.print (notFoundText x), ⟨s.store.fresh.2⟩) := by
  obtain ⟨hclean, hprogram⟩ := hx.parse_eq
  have hget : s.store.get? scope x = (s.store.bindings scope).get? x := by
    rw [Store.get?, Store.chain, hs.enclosing_eq_nil, List.findSome?_singleton]
  rw [handle_isLine hx.isLine hx.ne_empty, interpretIn_of_clean hclean, hprogram,
    Program.evaluate_expression]
  simp only [Expr.evaluate, evalExpr, Evaluation.conclude, Evaluation.lookup, hget]
  rcases (s.store.bindings scope).get? x with _ | v
  · rcases Builtin.ofName? x with _ | b <;> rfl
  · rfl

theorem builtinText_ne_notFoundText (x : String) : Value.builtinText ≠ notFoundText x := by
  intro h
  have hhead : Value.builtinText.toList.head? = some 'b' := by decide +kernel
  rw [h, head_notFoundText] at hhead
  cases hhead

/-- A name has an entry if it is found, and the text of the entry is what the name prints. -/
theorem Sound.name_reply (hs : s.Sound) (hx : IsName x) (k : Nat) :
    ∃ reply t, s.handle (k + 2) x = some (.print reply, t) ∧
      ((∃ text, (x, text) ∈ entries s.store) ↔ reply ≠ notFoundText x ∨
        (s.store.bindings scope).get? x = some (.string (notFoundText x))) ∧
      ∀ text, (x, text) ∈ entries s.store → text = reply := by
  rw [handle_name hs hx]
  simp only [mem_entries]
  rcases hv : (s.store.bindings scope).get? x with _ | v
  · rcases hb : Builtin.ofName? x with _ | b
    · exact ⟨notFoundText x, _, rfl, by simp, by simp⟩
    · refine ⟨Value.builtinText, s, rfl, ⟨fun _ => .inl (builtinText_ne_notFoundText x),
        fun _ => ⟨_, .inr ⟨rfl, ⟨b, rfl⟩, rfl⟩⟩⟩, ?_⟩
      rintro text (⟨w, ⟨⟩, -⟩ | ⟨-, -, rfl⟩)
      rfl
  · refine ⟨v.inspect, s, rfl, ⟨fun _ => ?_, fun _ => ⟨v.inspect, .inl ⟨v, rfl, rfl⟩⟩⟩, ?_⟩
    · by_cases htext : v.inspect = notFoundText x
      · have hstring : v = .string v.inspect :=
          Value.eq_string_of_head_inspect (hs.errorFree _ _ _ hv) (htext ▸ head_notFoundText x)
        rw [htext] at hstring
        exact .inr (congrArg some hstring)
      · exact .inl htext
    · rintro text (⟨w, ⟨⟩, rfl⟩ | ⟨⟨⟩, -⟩)
      rfl

/-- Let a new session be given any lines. Asked for the listing, it prints the entries, a line for
each: first those of the names that it binds, in the order of their bytes, then those of the
builtins that it does not bind; all of them are names, and none has two entries. A name as a line
prints a text, and that is the text of its entry if it has one; it has none exactly if the text is
that of a name without a value and the name is not bound to just this text as a string. Asking for
the listing changes nothing that is answered later. -/
theorem listing_tells_names {n : Nat} {lines : List String} {responses : List Response}
    {s : Session} (h : handleAll n initial lines = some (responses, s)) :
    (∀ m, s.handle m ":env" =
      some (.print ("\n".intercalate ((entries s.store).map fun e => e.1 ++ " = " ++ e.2)), s)) ∧
    entries s.store = boundEntries s.store ++ builtinEntries s.store ∧
    (∀ x, x ∈ (boundEntries s.store).map (·.1) ↔
      (s.store.bindings scope).contains x = true) ∧
    (boundEntries s.store).Pairwise (fun e f => utf8Bytes e.1 < utf8Bytes f.1) ∧
    (∀ x, x ∈ (builtinEntries s.store).map (·.1) ↔
      (∃ b : Builtin, b.name = x) ∧ (s.store.bindings scope).contains x = false) ∧
    ((entries s.store).map (·.1)).Nodup ∧ (∀ e ∈ entries s.store, IsName e.1) ∧
    (∀ x, IsName x → ∀ m, ∃ reply t, s.handle (m + 2) x = some (.print reply, t) ∧
      ((∃ text, (x, text) ∈ entries s.store) ↔ reply ≠ "ERROR: identifier not found: " ++ x ∨
        (s.store.bindings scope).get? x =
          some (.string ("ERROR: identifier not found: " ++ x))) ∧
      ∀ text, (x, text) ∈ entries s.store → text = reply) ∧
    ∀ m more, handleAll m s (":env" :: more) =
      (handleAll m s more).map fun r => (.print (listing s.store) :: r.1, r.2) := by
  have hs : s.Sound := sound_initial.handleAll h
  have henv : ∀ m, s.handle m ":env" = some (.print (listing s.store), s) := fun m => rfl
  refine ⟨fun m => ?_, rfl, fun x => mem_names_boundEntries, boundEntries_ordered _,
    fun x => mem_names_builtinEntries, entries_nodup _, ?_, fun x hx m => hs.name_reply hx m,
    fun m more => handleAll_cons (henv m) more⟩
  · rw [henv, listing_eq]
  · rintro ⟨x, text⟩ hmem
    rcases mem_entries.1 hmem with ⟨v, hv, -⟩ | ⟨-, ⟨b, hb⟩, -⟩
    · exact (hs.wellFormed scope x v hv).1
    · obtain rfl := Builtin.ofName?_eq_some_iff.1 hb
      exact b.isName_name

/-- A builtin that is hidden, a name of a function, and one that is not found. -/
theorem listing_tells_names_hidden :
    ∃ responses s,
      handleAll 9 initial ["let len = 1;", "let f = fn(x) \x7b x \x7d"] = some (responses, s) ∧
      (∃ reply t, s.handle 2 "f" = some (.print reply, t) ∧ ("f", reply) ∈ entries s.store) ∧
      (∀ text, ("g", text) ∉ entries s.store) ∧
      ∀ e ∈ builtinEntries s.store, e.1 ≠ "len" := by
  have hrun : ((handleAll 9 initial ["let len = 1;", "let f = fn(x) \x7b x \x7d"]).any fun r =>
      (r.2.store.bindings scope).contains "len" && (r.2.store.bindings scope).contains "f" &&
        !(r.2.store.bindings scope).contains "g") = true := by
    decide +kernel
  obtain ⟨⟨responses, s⟩, h, hnames⟩ := (Option.any_eq_true _ _).1 hrun
  simp only [Bool.and_eq_true, Bool.not_eq_true'] at hnames
  obtain ⟨⟨hlen, hf⟩, hg⟩ := hnames
  obtain ⟨-, -, hbound, -, hbuiltin, -, -, hname, -⟩ := listing_tells_names h
  refine ⟨responses, s, h, ?_, fun text hmem => ?_, fun e he hlen' => ?_⟩
  · have hisName : IsName "f" := ⟨by decide, List.all_eq_true.1 rfl, by decide⟩
    obtain ⟨reply, t, hreply, -, htext⟩ := hname "f" hisName 0
    obtain ⟨⟨_, text⟩, hmem, rfl⟩ := List.mem_map.1 ((hbound "f").2 hf)
    have hlisted : ("f", text) ∈ entries s.store := List.mem_append_left _ hmem
    exact ⟨reply, t, hreply, htext text hlisted ▸ hlisted⟩
  · rcases List.mem_append.1 hmem with hmem | hmem
    · rw [(hbound "g").1 (List.mem_map_of_mem hmem)] at hg
      cases hg
    · obtain ⟨⟨b, hb⟩, -⟩ := (hbuiltin "g").1 (List.mem_map_of_mem hmem)
      cases b
      exact absurd hb (by decide)
  · have hnot := ((hbuiltin "len").1 (hlen' ▸ List.mem_map_of_mem he)).2
    rw [hlen] at hnot
    cases hnot

/-- A name may be bound to the text that is printed for a name without a value. It is listed, and
still it prints that text. -/
theorem listing_of_error_text :
    ∃ s, handleAll 9 initial ["let x = \"ERROR: identifier not found: x\";"] =
        some ([.print "null"], s) ∧
      IsName "x" ∧
      s.handle 9 "x" = some (.print "ERROR: identifier not found: x", s) ∧
      s.handle 9 ":env" =
        some (.print "x = ERROR: identifier not found: x\nlen = builtin function", s) ∧
      ¬ ((∃ text, ("x", text) ∈ entries s.store) ↔
        ∀ t, s.handle 9 "x" ≠ some (.print "ERROR: identifier not found: x", t)) := by
  have hx : IsName "x" := ⟨by decide, List.all_eq_true.1 rfl, by decide⟩
  have hrun : ((handleAll 9 initial ["let x = \"ERROR: identifier not found: x\";"]).any fun r =>
      decide (r.1 = [.print "null"] ∧
        boundEntries r.2.store = [("x", "ERROR: identifier not found: x")] ∧
        listing r.2.store =
          "x = ERROR: identifier not found: x\nlen = builtin function")) = true := by
    decide +kernel
  obtain ⟨⟨responses, s⟩, h, hs⟩ := (Option.any_eq_true _ _).1 hrun
  obtain ⟨rfl, hentries, hlisting⟩ := of_decide_eq_true hs
  have hmem : ("x", "ERROR: identifier not found: x") ∈ boundEntries s.store := by
    rw [hentries]
    exact List.mem_singleton_self _
  obtain ⟨v, hv, htext⟩ := mem_boundEntries.1 hmem
  have hprint : s.handle 9 "x" = some (.print "ERROR: identifier not found: x", s) := by
    rw [handle_name (sound_initial.handleAll h) hx 7, hv, ← htext]
  refine ⟨s, h, hx, hprint, hlisting ▸ rfl, fun hiff => ?_⟩
  exact hiff.1 ⟨_, List.mem_append_left _ hmem⟩ s hprint

end Session

end MonkeyLang
