import MonkeyLang.Json.Reader
import MonkeyLang.Proofs.Json.Grammar

/-!
# JSON texts are read

Every text of the language is read as the value that it stands for (`parse?_of_isText`), whatever
blanks it has and however its strings are escaped. Each reader takes the text of what it reads from
the front and leaves what stands behind it; for a number this takes that it does not go on there
(`Ends`). A text is longer than the calls that read it are deep, so the bound on their depth does
not run out.
-/

namespace MonkeyLang.Json

open Read

/-! ## Blanks -/

theorem isBlank_of_mem {c : Char} (h : c ∈ blanks) : isBlank c = true := by
  have hall : blanks.all isBlank = true := rfl
  exact List.all_eq_true.1 hall c h

theorem not_isBlank_of_isDigit {c : Char} (h : c.isDigit = true) : isBlank c = false := by
  refine Bool.eq_false_iff.2 fun hb => ?_
  simp only [isBlank, Bool.or_eq_true, beq_iff_eq] at hb
  rcases hb with ((rfl | rfl) | rfl) | rfl <;> cases h

theorem skipBlanks_append {b : List Char} (h : IsBlanks b) (text : List Char) :
    skipBlanks (b ++ text) = skipBlanks text :=
  List.dropWhile_append_of_pos fun c hc => isBlank_of_mem (h c hc)

theorem skipBlanks_cons {c : Char} (h : isBlank c = false) (text : List Char) :
    skipBlanks (c :: text) = c :: text :=
  List.dropWhile_cons_of_neg (by simp [h])

@[simp] theorem skipBlanks_skipBlanks (text : List Char) :
    skipBlanks (skipBlanks text) = skipBlanks text := by
  induction text with
  | nil => rfl
  | cons c text ih =>
    by_cases hc : isBlank c = true
    · have hskip : skipBlanks (c :: text) = skipBlanks text := List.dropWhile_cons_of_pos hc
      rw [hskip, ih]
    · rw [skipBlanks_cons (Bool.eq_false_iff.2 hc), skipBlanks_cons (Bool.eq_false_iff.2 hc)]

/-! ## Strings -/

theorem hex4?_append {ds : List Char} {u : Nat} (h : IsUnit ds u) (rest : List Char) :
    hex4? (ds ++ rest) = some (u, rest) := by
  cases h with
  | digits ha hb hc hd => simp [hex4?, ha, hb, hc, hd]

theorem character?_append {t : List Char} {c : Char} (h : IsCharacter t c) (rest : List Char) :
    character? (t ++ rest) = some (some c, rest) := by
  cases h with
  | plain hge hq hb =>
    have hplain : ¬ (c = '\\' ∨ c.toNat < 0x20) := by simp [hb, hge]
    rw [List.singleton_append, character?, if_neg hplain]
    · exact hq
    · exact fun _ h => absurd h hb
    · exact fun _ _ h => absurd h hb
  | short h =>
    simp only [shortEscapes, List.mem_cons, List.not_mem_nil, or_false, Prod.mk.injEq] at h
    rcases h with ⟨rfl, rfl⟩ | ⟨rfl, rfl⟩ | ⟨rfl, rfl⟩ | ⟨rfl, rfl⟩ | ⟨rfl, rfl⟩ | ⟨rfl, rfl⟩ |
      ⟨rfl, rfl⟩ | ⟨rfl, rfl⟩ <;> rfl
  | unit hu hhigh hlow =>
    unfold IsHigh at hhigh
    unfold IsLow at hlow
    simp [character?, unicode?, hex4?_append hu, hhigh, hlow]
  | pair hu hu' hhigh hlow =>
    unfold IsHigh at hhigh
    unfold IsLow at hlow
    simp [character?, unicode?, hex4?_append hu, hex4?_append hu', hhigh, hlow]

theorem IsCharacter.length_pos {t : List Char} {c : Char} (h : IsCharacter t c) :
    0 < t.length := by
  cases h <;> exact Nat.succ_pos _

/-- Characters are read up to the quote behind them. -/
theorem characters?_append {t cs : List Char} (h : IsCharacters t cs) {n : Nat}
    (hn : t.length < n) (rest : List Char) :
    characters? n (t ++ '"' :: rest) = some (cs, rest) := by
  induction h generalizing n with
  | nil =>
    obtain ⟨n, rfl⟩ := Nat.exists_eq_succ_of_ne_zero (Nat.ne_of_gt hn)
    rfl
  | @cons t ts c cs hc _ ih =>
    have hpos := hc.length_pos
    rw [List.length_append] at hn
    obtain ⟨n, rfl⟩ := Nat.exists_eq_add_of_lt (Nat.zero_lt_of_lt hn)
    rw [Nat.zero_add, characters?, List.append_assoc, character?_append hc]
    dsimp only
    rw [ih (by omega)]
    rfl

theorem string?_append {t : List Char} {s : String} (h : IsCharacters t s.toList)
    (rest : List Char) : string? (t ++ '"' :: rest) = some (s, rest) := by
  have hn : t.length < (t ++ '"' :: rest).length + 1 := by
    rw [List.length_append]
    omega
  rw [string?, characters?_append h hn, Option.map_some]
  dsimp only
  rw [String.ofList_toList]

/-! ## Numbers -/

/-- No digit is in front of the text. -/
def NoDigit (rest : List Char) : Prop := ∀ c ∈ rest.head?, c.isDigit = false

/-- The characters with which a number may go on. -/
def continues (c : Char) : Bool := c.isDigit || c == '.' || c == 'e' || c == 'E'

/-- A number does not go on in the text. -/
def Ends (rest : List Char) : Prop := ∀ c ∈ rest.head?, continues c = false

section
variable {ds fs es rest : List Char}

theorem Ends.not_mem (h : Ends rest) {c : Char} (hc : c ∈ rest.head?) :
    c.isDigit = false ∧ c ≠ '.' ∧ ¬ (c = 'e' ∨ c = 'E') := by
  have hnot := h c hc
  simp only [continues, Bool.or_eq_false_iff, beq_eq_false_iff_ne] at hnot
  obtain ⟨⟨⟨hdigit, hpoint⟩, he⟩, hE⟩ := hnot
  exact ⟨hdigit, hpoint, fun h => h.elim he hE⟩

theorem Ends.noDigit (h : Ends rest) : NoDigit rest := fun _ hc => (h.not_mem hc).1

theorem digits?_append (h : IsDigits ds) (hrest : NoDigit rest) :
    digits? (ds ++ rest) = some (ds, rest) := by
  have htake : rest.takeWhile Char.isDigit = [] ∧ rest.dropWhile Char.isDigit = rest := by
    cases rest with
    | nil => exact ⟨rfl, rfl⟩
    | cons c rest =>
      have hc : ¬ c.isDigit = true := Bool.eq_false_iff.1 (hrest c rfl)
      exact ⟨List.takeWhile_cons_of_neg hc, List.dropWhile_cons_of_neg hc⟩
  have hds : (ds ++ rest).takeWhile Char.isDigit = ds := by
    rw [List.takeWhile_append_of_pos h.isDigit, htake.1, List.append_nil]
  have hds' : (ds ++ rest).dropWhile Char.isDigit = rest := by
    rw [List.dropWhile_append_of_pos h.isDigit, htake.2]
  rw [digits?, hds, hds', if_neg]
  simp [h.ne_nil]

theorem integerDigits?_append (h : IsWhole ds) (hrest : NoDigit rest) :
    integerDigits? (ds ++ rest) = some (ds, rest) := by
  cases h with
  | zero => rfl
  | digits hds hzero =>
    rw [integerDigits?, digits?_append hds hrest]
    intro rest' heq
    obtain ⟨c, cs, rfl⟩ := List.exists_cons_of_ne_nil hds.ne_nil
    exact hzero (congrArg some (List.cons.inj heq).1)

theorem fraction?_append (h : IsFraction fs) (hrest : NoDigit rest)
    (hpoint : rest.head? ≠ some '.') : fraction? (fs ++ rest) = some (fs, rest) := by
  cases h with
  | none =>
    rw [List.nil_append, fraction?]
    rintro rest' rfl
    exact hpoint rfl
  | point hds => rw [List.cons_append, fraction?, digits?_append hds hrest, Option.map_some]

theorem exponent?_append (h : IsExponent es) (hrest : Ends rest) :
    exponent? (es ++ rest) = some (es, rest) := by
  cases h with
  | none =>
    rw [List.nil_append]
    cases rest with
    | nil => rfl
    | cons c rest =>
      obtain ⟨-, -, he⟩ := hrest.not_mem (rfl : (c :: rest).head? = some c)
      unfold exponent?
      dsimp only
      rw [if_neg he]
  | @unsigned e ds he hds =>
    have hdigits := digits?_append hds hrest.noDigit
    -- The first digit is no sign.
    have hhead : ∀ c rest', ds ++ rest = c :: rest' → c.isDigit = true := fun c rest' heq => by
      obtain ⟨d, ds, rfl⟩ := List.exists_cons_of_ne_nil hds.ne_nil
      obtain rfl := (List.cons.inj heq).1
      exact hds.isDigit _ List.mem_cons_self
    rw [List.cons_append, exponent?, if_pos he, hdigits, Option.map_some]
    · exact fun rest' heq => nomatch hhead '+' rest' heq
    · exact fun rest' heq => nomatch hhead '-' rest' heq
  | signed he hsign hds =>
    have hdigits := digits?_append hds hrest.noDigit
    rcases hsign with rfl | rfl <;>
      rw [List.cons_append, List.cons_append, exponent?, if_pos he, hdigits, Option.map_some]

/-- Neither a digit nor a point follows the fraction of a number. -/
theorem exponent_head (h : IsExponent es) (hrest : Ends rest) :
    NoDigit (es ++ rest) ∧ (es ++ rest).head? ≠ some '.' := by
  have hletter : ∀ {e : Char}, e = 'e' ∨ e = 'E' → e.isDigit = false ∧ e ≠ '.' := by
    rintro _ (rfl | rfl) <;> decide
  cases h with
  | none => exact ⟨hrest.noDigit, fun h => (hrest.not_mem h).2.1 rfl⟩
  | unsigned he hds | signed he _ hds =>
    obtain ⟨hdigit, hpoint⟩ := hletter he
    refine ⟨?_, fun h => hpoint (Option.some.inj h)⟩
    rintro c ⟨⟩
    exact hdigit

theorem unsigned?_append (negative : Bool) (hds : IsWhole ds) (hfs : IsFraction fs)
    (hes : IsExponent es) (hrest : Ends rest) :
    unsigned? negative (ds ++ (fs ++ (es ++ rest))) =
      if fs = [] ∧ es = [] ∧ ¬ (negative = true ∧ Decimal.value ds = 0) then
        some (int (if negative then -(Decimal.value ds : Int) else Decimal.value ds), rest)
      else some (real (.ofList (sign negative ++ ds ++ fs ++ es)), rest) := by
  obtain ⟨hdigit, hpoint⟩ := exponent_head hes hrest
  have hwhole : NoDigit (fs ++ (es ++ rest)) := by
    cases hfs with
    | none => exact hdigit
    | point _ =>
      rintro c ⟨⟩
      rfl
  rw [unsigned?, integerDigits?_append hds hwhole]
  simp only [Option.bind_eq_bind, Option.bind_some]
  rw [fraction?_append hfs hdigit hpoint]
  simp only [Option.bind_some]
  rw [exponent?_append hes hrest]
  simp only [Option.bind_some, List.isEmpty_iff, sign]
  rfl

theorem IsWhole.isDigits (h : IsWhole ds) : IsDigits ds := by
  cases h with
  | zero => exact ⟨List.cons_ne_nil _ _, List.forall_mem_singleton.2 rfl⟩
  | digits hds _ => exact hds

/-- A minus is in front of the digits or is none of them. -/
theorem number?_sign (negative : Bool) (h : IsWhole ds) (rest : List Char) :
    number? (sign negative ++ (ds ++ rest)) = unsigned? negative (ds ++ rest) := by
  cases negative with
  | true => rfl
  | false =>
    obtain ⟨c, cs, rfl⟩ := List.exists_cons_of_ne_nil h.isDigits.ne_nil
    have hc := h.isDigits.isDigit c List.mem_cons_self
    show number? ((c :: cs) ++ rest) = _
    rw [number?]
    intro rest' heq
    obtain rfl := (List.cons.inj heq).1
    cases hc

theorem number?_append {t : List Char} {j : Json} (h : IsNumber t j) (hrest : Ends rest) :
    number? (t ++ rest) = some (j, rest) := by
  cases h with
  | @int negative ds hds hzero =>
    have hread := unsigned?_append negative hds .none .none hrest
    rw [if_pos ⟨rfl, rfl, hzero⟩] at hread
    rw [List.append_assoc, number?_sign negative hds]
    exact hread
  | @real negative ds fs es hds hfs hes hnot =>
    have hread := unsigned?_append negative hds hfs hes hrest
    rw [if_neg hnot] at hread
    rw [List.append_assoc, List.append_assoc, List.append_assoc, number?_sign negative hds]
    exact hread

/-- The first character of a number. -/
theorem IsNumber.head {t : List Char} {j : Json} (h : IsNumber t j) :
    ∃ c t', t = c :: t' ∧ (c = '-' ∨ c.isDigit = true) := by
  have hsign : ∀ {ds} negative back, IsWhole ds →
      ∃ c t', sign negative ++ (ds ++ back) = c :: t' ∧ (c = '-' ∨ c.isDigit = true) := by
    intro ds negative back hds
    cases negative with
    | true => exact ⟨_, _, rfl, .inl rfl⟩
    | false =>
      obtain ⟨c, cs, rfl⟩ := List.exists_cons_of_ne_nil hds.isDigits.ne_nil
      exact ⟨c, _, rfl, .inr (hds.isDigits.isDigit c List.mem_cons_self)⟩
  cases h with
  | @int negative ds hds _ =>
    have hhead := hsign negative [] hds
    rwa [List.append_nil] at hhead
  | @real negative ds fs es hds _ _ _ =>
    rw [List.append_assoc, List.append_assoc]
    exact hsign negative _ hds

end

/-! ## Values -/

/-- A text that begins like a number is read as one. -/
theorem value?_number {c : Char} (hc : c = '-' ∨ c.isDigit = true) {text rest : List Char}
    (h : skipBlanks text = c :: rest) (n : Nat) : value? (n + 1) text = number? (c :: rest) := by
  have hne : ∀ d : Char, d ≠ '-' → d.isDigit = false → c ≠ d := by
    rintro d hminus hdigit rfl
    rcases hc with rfl | hc
    · exact hminus rfl
    · rw [hdigit] at hc
      cases hc
  rw [value?, h]
  split
  · contradiction
  · next heq => exact absurd (List.cons.inj heq).1 (hne '{' (by decide) rfl)
  · next heq => exact absurd (List.cons.inj heq).1 (hne '[' (by decide) rfl)
  · next heq => exact absurd (List.cons.inj heq).1 (hne '"' (by decide) rfl)
  · next heq => exact absurd (List.cons.inj heq).1 (hne 'n' (by decide) rfl)
  · next heq => exact absurd (List.cons.inj heq).1 (hne 't' (by decide) rfl)
  · next heq => exact absurd (List.cons.inj heq).1 (hne 'f' (by decide) rfl)
  · rfl

/-- Blanks in front make no difference. -/
theorem value?_skipBlanks (n : Nat) (text : List Char) :
    value? n (skipBlanks text) = value? n text := by
  cases n with
  | zero => rw [value?, value?]
  | succ n => rw [value?, value?, skipBlanks_skipBlanks]

theorem items?_skipBlanks (n : Nat) (text : List Char) :
    Read.items? n (skipBlanks text) = Read.items? n text := by
  cases n with
  | zero => rw [Read.items?, Read.items?]
  | succ n => rw [Read.items?, Read.items?, value?_skipBlanks]

theorem members?_skipBlanks (n : Nat) (text : List Char) :
    members? n (skipBlanks text) = members? n text := by
  cases n with
  | zero => rw [members?, members?]
  | succ n => rw [members?, members?, skipBlanks_skipBlanks]

/-- No item begins with the bracket that closes an array. -/
theorem items?_bracket (n : Nat) (rest : List Char) : Read.items? n (']' :: rest) = none := by
  match n with
  | 0 | 1 => rfl
  | _ + 2 => rfl

theorem members?_brace (n : Nat) (rest : List Char) : members? n ('}' :: rest) = none := by
  cases n <;> rfl

/-- What may stand behind a value and the blanks behind it. -/
structure Closes (rest : List Char) : Prop where
  ends : Ends rest
  skipBlanks_eq : skipBlanks rest = rest

theorem closes_nil : Closes [] := ⟨nofun, rfl⟩

theorem closes_cons {c : Char} (hc : continues c = false) (hb : isBlank c = false)
    (rest : List Char) : Closes (c :: rest) := by
  refine ⟨?_, skipBlanks_cons hb rest⟩
  rintro _ ⟨⟩
  exact hc

theorem Closes.append {b rest : List Char} (h : Closes rest) (hb : IsBlanks b) :
    Ends (b ++ rest) := by
  cases b with
  | nil => exact h.ends
  | cons c b =>
    have hall : blanks.all (!continues ·) = true := rfl
    rintro _ ⟨⟩
    exact Bool.not_eq_true' _ ▸ List.all_eq_true.1 hall c (hb c List.mem_cons_self)

section
variable {n : Nat} {b text rest : List Char} (hb : IsBlanks b)
include hb

theorem value?_bracket : value? (n + 1) (b ++ '[' :: text) =
    match skipBlanks text with
    | ']' :: rest => some (arr [], rest)
    | rest => (Read.items? n rest).map fun (is, rest) => (arr is, rest) := by
  rw [value?, skipBlanks_append hb, skipBlanks_cons rfl]
  rfl

theorem value?_brace : value? (n + 1) (b ++ '{' :: text) =
    match skipBlanks text with
    | '}' :: rest => some (obj [], rest)
    | rest => (members? n rest).map fun (ms, rest) => (obj ms, rest) := by
  rw [value?, skipBlanks_append hb, skipBlanks_cons rfl]
  rfl

/-- An array is read if its items are. -/
theorem value?_array {js : List Json} (h : Read.items? n text = some (js, rest)) :
    value? (n + 1) (b ++ '[' :: text) = some (arr js, rest) := by
  rw [value?_bracket hb]
  rw [← items?_skipBlanks] at h
  split
  · next heq =>
    rw [heq, items?_bracket] at h
    cases h
  · rw [h, Option.map_some]

/-- An object is read if its members are. -/
theorem value?_object {ms : List (String × Json)} (h : members? n text = some (ms, rest)) :
    value? (n + 1) (b ++ '{' :: text) = some (obj ms, rest) := by
  rw [value?_brace hb]
  rw [← members?_skipBlanks] at h
  split
  · next heq =>
    rw [heq, members?_brace] at h
    cases h
  · rw [h, Option.map_some]

theorem value?_string {s : String} (h : string? text = some (s, rest)) :
    value? (n + 1) (b ++ '"' :: text) = some (str s, rest) := by
  rw [value?, skipBlanks_append hb, skipBlanks_cons rfl]
  show (string? text).map _ = _
  rw [h]
  rfl

theorem value?_isNumber {t : List Char} {j : Json} (h : IsNumber t j) (hrest : Ends rest) :
    value? (n + 1) (b ++ (t ++ rest)) = some (j, rest) := by
  obtain ⟨c, t', rfl, hc⟩ := h.head
  have hblank : isBlank c = false := by
    rcases hc with rfl | hc
    · rfl
    · exact not_isBlank_of_isDigit hc
  have hskip : skipBlanks (b ++ (c :: t' ++ rest)) = c :: (t' ++ rest) := by
    rw [skipBlanks_append hb, List.cons_append, skipBlanks_cons hblank]
  rw [value?_number hc hskip, ← List.cons_append]
  exact number?_append h hrest

end

section
variable {n : Nat} {text back rest : List Char} {j : Json}

/-- An item with a comma behind it, and the items behind that. -/
theorem items?_more (h : value? n text = some (j, back)) (hskip : skipBlanks back = ',' :: rest) :
    Read.items? (n + 1) text = (Read.items? n rest).map fun (js, rest) => (j :: js, rest) := by
  rw [Read.items?, h, Option.bind_eq_bind, Option.bind_some]
  dsimp only
  rw [hskip]
  show Option.bind _ _ = Option.map _ _
  cases Read.items? n rest <;> rfl

/-- The item in front of the bracket that closes the array. -/
theorem items?_last (h : value? n text = some (j, back)) (hskip : skipBlanks back = ']' :: rest) :
    Read.items? (n + 1) text = some ([j], rest) := by
  rw [Read.items?, h, Option.bind_eq_bind, Option.bind_some]
  dsimp only
  rw [hskip]
  rfl

section
variable {b inner b' : List Char} {name : String} (hb : IsBlanks b)
  (hname : IsCharacters inner name.toList) (hb' : IsBlanks b')
include hb hname hb'

/-- A member as far as its value. -/
theorem members?_named (h : value? n text = some (j, back)) :
    members? (n + 1) (b ++ '"' :: (inner ++ '"' :: (b' ++ ':' :: text))) =
      match skipBlanks back with
      | ',' :: rest => do
        let (more, rest) ← members? n rest
        return ((name, j) :: more, rest)
      | '}' :: rest => return ([(name, j)], rest)
      | _ => none := by
  rw [members?, skipBlanks_append hb, skipBlanks_cons rfl]
  show (string? _).bind _ = _
  rw [string?_append hname, Option.bind_some]
  dsimp only
  rw [skipBlanks_append hb', skipBlanks_cons rfl]
  show (value? n text).bind _ = _
  rw [h]
  rfl

theorem members?_more (h : value? n text = some (j, back)) (hskip : skipBlanks back = ',' :: rest) :
    members? (n + 1) (b ++ '"' :: (inner ++ '"' :: (b' ++ ':' :: text))) =
      (members? n rest).map fun (ms, rest) => ((name, j) :: ms, rest) := by
  rw [members?_named hb hname hb' h, hskip]
  show Option.bind _ _ = Option.map _ _
  cases members? n rest <;> rfl

theorem members?_last (h : value? n text = some (j, back)) (hskip : skipBlanks back = '}' :: rest) :
    members? (n + 1) (b ++ '"' :: (inner ++ '"' :: (b' ++ ':' :: text))) =
      some ([(name, j)], rest) := by
  rw [members?_named hb hname hb' h, hskip]
  rfl

end

end

/-- A value is not empty. -/
theorem IsValue.length_pos {t : List Char} {j : Json} (h : IsValue t j) : 0 < t.length := by
  cases h with
  | number h =>
    obtain ⟨c, t', rfl, -⟩ := h.head
    exact Nat.succ_pos _
  | string h =>
    cases h
    exact Nat.succ_pos _
  | _ => exact Nat.succ_pos _

mutual

/-- A value is read from behind the blanks in front of it. -/
theorem IsValue.read : ∀ {t : List Char} {j : Json}, IsValue t j →
    ∀ {n : Nat} {b rest : List Char}, IsBlanks b → t.length ≤ n + 1 → Ends rest →
      value? (n + 1) (b ++ (t ++ rest)) = some (j, rest)
  | _, _, .null, n, b, rest, hb, _, _ | _, _, .true, n, b, rest, hb, _, _
  | _, _, .false, n, b, rest, hb, _, _ => by
    rw [value?, skipBlanks_append hb]
    rfl
  | _, _, .number h, n, b, rest, hb, _, hrest => value?_isNumber hb h hrest
  | _, _, .string h, n, b, rest, hb, _, _ => by
    obtain ⟨h⟩ := h
    rw [List.cons_append, List.append_assoc, List.singleton_append]
    exact value?_string hb (string?_append h rest)
  | _, _, .emptyArray h, n, b, rest, hb, _, _ => by
    rw [List.cons_append, List.append_assoc, List.singleton_append, value?_bracket hb,
      skipBlanks_append h, skipBlanks_cons rfl]
    rfl
  | _, _, .array h, n, b, rest, hb, hn, _ => by
    rw [List.cons_append, List.append_assoc, List.singleton_append]
    refine value?_array hb (h.read ?_)
    simp only [List.length_cons, List.length_append] at hn
    omega
  | _, _, .emptyObject h, n, b, rest, hb, _, _ => by
    rw [List.cons_append, List.append_assoc, List.singleton_append, value?_brace hb,
      skipBlanks_append h, skipBlanks_cons rfl]
    rfl
  | _, _, .object h, n, b, rest, hb, hn, _ => by
    rw [List.cons_append, List.append_assoc, List.singleton_append]
    refine value?_object hb (h.read ?_)
    simp only [List.length_cons, List.length_append] at hn
    omega

/-- An element is read up to the blanks behind it. -/
theorem IsElement.read : ∀ {t : List Char} {j : Json}, IsElement t j →
    ∀ {n : Nat} {rest : List Char}, t.length ≤ n → Closes rest →
      ∃ rest', value? n (t ++ rest) = some (j, rest') ∧ skipBlanks rest' = rest
  | _, _, @IsElement.padded b t b' j hb h hb', n, rest, hn, hrest => by
    refine ⟨b' ++ rest, ?_, (skipBlanks_append hb' rest).trans hrest.skipBlanks_eq⟩
    have hpos := h.length_pos
    simp only [List.length_append] at hn
    obtain ⟨n, rfl⟩ : ∃ k, n = k + 1 := ⟨n - 1, by omega⟩
    rw [List.append_assoc, List.append_assoc]
    exact h.read hb (by omega) (hrest.append hb')

/-- Items are read up to the bracket that closes the array. -/
theorem IsItems.read : ∀ {t : List Char} {js : List Json}, IsItems t js →
    ∀ {n : Nat} {rest : List Char}, t.length < n →
      Read.items? n (t ++ ']' :: rest) = some (js, rest)
  | _, _, .one h, n + 1, rest, hn => by
    obtain ⟨back, hread, hskip⟩ := h.read (Nat.le_of_lt_succ hn)
      (closes_cons (c := ']') rfl rfl rest)
    exact items?_last hread hskip
  | _, _, .more h hmore, n + 1, rest, hn => by
    simp only [List.length_append, List.length_cons] at hn
    obtain ⟨back, hread, hskip⟩ := h.read (n := n) (by omega) (closes_cons (c := ',') rfl rfl _)
    rw [List.append_assoc, List.cons_append, items?_more hread hskip, hmore.read (by omega)]
    rfl

/-- Members are read up to the brace that closes the object. -/
theorem IsMembers.read : ∀ {t : List Char} {ms : List (String × Json)}, IsMembers t ms →
    ∀ {n : Nat} {rest : List Char}, t.length < n →
      members? n (t ++ '}' :: rest) = some (ms, rest)
  | _, _, .one (.named hb hname hb' h), n + 1, rest, hn => by
    obtain ⟨hname⟩ := hname
    simp only [List.length_append, List.length_cons] at hn
    obtain ⟨back, hread, hskip⟩ := h.read (n := n) (by omega) (closes_cons (c := '}') rfl rfl rest)
    simp only [List.append_assoc, List.cons_append, List.nil_append]
    exact members?_last hb hname hb' hread hskip
  | _, _, .more (.named hb hname hb' h) hmore, n + 1, rest, hn => by
    obtain ⟨hname⟩ := hname
    simp only [List.length_append, List.length_cons] at hn
    obtain ⟨back, hread, hskip⟩ := h.read (n := n) (by omega) (closes_cons (c := ',') rfl rfl _)
    simp only [List.append_assoc, List.cons_append, List.nil_append]
    rw [members?_more hb hname hb' hread hskip, hmore.read (by omega)]
    rfl

end

/-- A JSON text is read as its value. -/
theorem parse?_of_isText {text : String} {j : Json} (h : IsText text j) : parse? text = some j := by
  obtain ⟨back, hread, hskip⟩ := h.read (Nat.le_succ _) closes_nil
  rw [List.append_nil] at hread
  rw [parse?, hread]
  dsimp only
  rw [hskip]
  rfl

end MonkeyLang.Json
