import MonkeyLang.Proofs.Grammar.Parse
import MonkeyLang.Proofs.Syntax.WellFormed
import MonkeyLang.Syntax.Render

/-!
# Rendered programs are read back

The text of a well-formed tree is scanned as terminals that derive the tree (`Expr.writes` and its
companions), and so it is read back as the tree it was rendered from. The text of an expression may
end in a word or a number, so the scan of it needs to know that what follows does not go on with
that: `Writes`.
-/

namespace MonkeyLang

open Grammar Token

/-! ## Signs and words -/

namespace Token

/-- Is the character a sign that makes no other one with what stands behind it? -/
def isMark (c : Char) : Bool := Kind.ofSign c != .illegal && c != '=' && c != '!'

theorem terminals_mark {c : Char} (h : isMark c = true) (rest : List Char) :
    terminals (c :: rest) = ⟨.ofSign c, .ofList [c]⟩ :: terminals rest := by
  simp only [isMark, Bool.and_eq_true, bne_iff_ne] at h
  exact terminals_sign h.1.1 fun hc => (hc.elim h.1.2 h.2).elim

theorem terminals_assign (rest : List Char) :
    terminals ('=' :: ' ' :: rest) = ⟨.assign, "="⟩ :: terminals rest := by
  rw [terminals_sign (by decide) (by simp), terminals_space]
  rfl

theorem terminals_unary (o : UnaryOperator) {rest : List Char} (h : rest.head? ≠ some '=') :
    terminals (o.sign.toList ++ rest) = ⟨o.kind, o.sign⟩ :: terminals rest := by
  cases o with
  | not => exact terminals_sign (c := '!') (by decide) fun _ => h
  | negate => exact terminals_sign (c := '-') (by decide) (by simp)

theorem terminals_binary (o : BinaryOperator) (rest : List Char) :
    terminals (o.sign.toList ++ ' ' :: rest) = ⟨o.kind, o.sign⟩ :: terminals rest := by
  rw [← terminals_space rest]
  cases o with
  | equal => exact terminals_read (c := '=') rfl
  | notEqual => exact terminals_read (c := '!') rfl
  | add => exact terminals_sign (c := '+') (by decide) (by simp)
  | subtract => exact terminals_sign (c := '-') (by decide) (by simp)
  | multiply => exact terminals_sign (c := '*') (by decide) (by simp)
  | divide => exact terminals_sign (c := '/') (by decide) (by simp)
  | less => exact terminals_sign (c := '<') (by decide) (by simp)
  | greater => exact terminals_sign (c := '>') (by decide) (by simp)

/-- A keyword in front of a sign or a blank. -/
theorem terminals_keyword (word : List Char) {c : Char} (rest : List Char)
    (h : String.ofList word ∈ keywords) (hc : isLetter c = false ∧ c.isDigit = false) :
    terminals (word ++ c :: rest) = ⟨.ofWord word, .ofList word⟩ :: terminals (c :: rest) := by
  have hword : word ≠ [] ∧ ∀ d ∈ word, isLetter d = true := by
    simp only [keywords, List.mem_cons, List.not_mem_nil, or_false] at h
    rw [← String.toList_ofList (l := word)]
    rcases h with h | h | h | h | h | h | h <;> rw [h] <;>
      exact ⟨List.cons_ne_nil _ _, List.all_eq_true.1 rfl⟩
  exact terminals_word word hword.1 hword.2 (apart_cons rest hc.1 hc.2)

theorem terminals_if (rest : List Char) :
    terminals ('i' :: 'f' :: ' ' :: '(' :: rest) =
      ⟨.ifWord, "if"⟩ :: ⟨.leftParen, "("⟩ :: terminals rest := by
  refine (terminals_keyword ['i', 'f'] _ (by decide) (by decide)).trans ?_
  rw [terminals_space, terminals_mark (by rfl)]
  rfl

theorem terminals_else (rest : List Char) :
    terminals (' ' :: 'e' :: 'l' :: 's' :: 'e' :: ' ' :: rest) =
      ⟨.elseWord, "else"⟩ :: terminals rest := by
  rw [terminals_space]
  refine (terminals_keyword ['e', 'l', 's', 'e'] _ (by decide) (by decide)).trans ?_
  rw [terminals_space]
  rfl

theorem terminals_function (rest : List Char) :
    terminals ('f' :: 'n' :: '(' :: rest) =
      ⟨.function, "fn"⟩ :: ⟨.leftParen, "("⟩ :: terminals rest := by
  refine (terminals_keyword ['f', 'n'] _ (by decide) (by decide)).trans ?_
  rw [terminals_mark (by rfl)]
  rfl

theorem terminals_let (rest : List Char) :
    terminals ('l' :: 'e' :: 't' :: ' ' :: rest) = ⟨.letWord, "let"⟩ :: terminals rest := by
  refine (terminals_keyword ['l', 'e', 't'] _ (by decide) (by decide)).trans ?_
  rw [terminals_space]
  rfl

theorem terminals_return (rest : List Char) :
    terminals ('r' :: 'e' :: 't' :: 'u' :: 'r' :: 'n' :: ' ' :: rest) =
      ⟨.returnWord, "return"⟩ :: terminals rest := by
  refine (terminals_keyword ['r', 'e', 't', 'u', 'r', 'n'] _ (by decide) (by decide)).trans ?_
  rw [terminals_space]
  rfl

/-- A name in front of what cannot go on with it. -/
theorem terminals_name {name : String} (h : IsName name) {rest : List Char} (hr : Apart rest) :
    terminals (name.toList ++ rest) = ⟨.identifier, name⟩ :: terminals rest := by
  have hword : Kind.ofWord name.toList = .identifier := by
    rw [Kind.ofWord_eq_identifier_iff, String.ofList_toList]
    exact h.not_keyword
  rw [terminals_word _ (fun hn => h.ne_empty (String.toList_eq_nil_iff.1 hn)) h.isLetter hr, hword,
    String.ofList_toList]

/-- An integer that is not negative, in front of what cannot go on with it. -/
theorem terminals_integer {n : Int64} (h : 0 ≤ n.toInt) {rest : List Char} (hr : Apart rest) :
    terminals ((Decimal.render n).toList ++ rest) =
      ⟨.integer, Decimal.render n⟩ :: terminals rest := by
  rw [terminals_number (Decimal.render_ne_nil h) (fun _ => Decimal.isDigit_of_mem_render h) hr,
    String.ofList_toList]

end Token

/-! ## Texts in front of other texts -/

/-- The text is scanned as the terminals `ts` in front of whatever does not go on with its last
word. -/
def Writes (text : String) (ts : List Terminal) : Prop :=
  ∀ rest, Apart rest → terminals (text.toList ++ rest) = ts ++ terminals rest

/-- The text of parameters is scanned as terminals that derive them. -/
theorem writes_parameters : ∀ xs : List String, (∀ x ∈ xs, IsName x) →
    ∃ ts, Writes (renderParameters xs) ts ∧ IsParameters ts xs
  | [], _ => ⟨[], fun _ _ => rfl, .none⟩
  | [x], h => by
    refine ⟨[⟨.identifier, x⟩], fun rest hr => ?_, .some .one⟩
    exact terminals_name (h x List.mem_cons_self) hr
  | x :: y :: xs, h => by
    obtain ⟨ts, hts, hd⟩ := writes_parameters (y :: xs) fun z hz => h z (List.mem_cons_of_mem x hz)
    cases hd with
    | some hd =>
      refine ⟨_, fun rest hr => ?_, .some (.more (c := ",") hd)⟩
      simp only [renderParameters, String.toList_append, String.reduceToList, List.append_assoc,
        List.cons_append, List.nil_append]
      rw [terminals_name (h x List.mem_cons_self) (apart_cons _ rfl rfl), terminals_mark (by rfl),
        terminals_space, hts rest hr]
      rfl

/-- Braces around statements are the terminals that they are. -/
theorem terminals_braced {ss : List Stmt} {ts : List Terminal}
    (hw : Writes (renderStatements ss) ts) (hd : IsStatements ts ss) (rest : List Char) :
    terminals ((braced ss (renderStatements ss)).toList ++ rest) =
      ⟨.leftBrace, "\x7b"⟩ :: (ts ++ ⟨.rightBrace, "\x7d"⟩ :: terminals rest) := by
  have hmark : terminals (' ' :: '}' :: rest) = ⟨.rightBrace, "\x7d"⟩ :: terminals rest := by
    rw [terminals_space, terminals_mark (by rfl)]
    rfl
  cases ss with
  | nil =>
    cases hd
    simp only [braced, List.isEmpty_nil, if_true, String.reduceToList, List.cons_append,
      List.nil_append]
    rw [terminals_mark (by rfl), hmark]
    rfl
  | cons s ss =>
    simp only [braced, List.isEmpty_cons, Bool.false_eq_true, if_false, String.toList_append,
      String.reduceToList, List.append_assoc, List.cons_append, List.nil_append]
    rw [terminals_mark (by rfl), terminals_space, hw _ (apart_cons _ rfl rfl), hmark]
    rfl

theorem head_append_ne {p : Char → Bool} {text : List Char} (hne : text ≠ [])
    (hp : ∀ c ∈ text, p c = true) (he : p '=' = false) (rest : List Char) :
    (text ++ rest).head? ≠ some '=' := by
  obtain ⟨c, text, rfl⟩ := List.exists_cons_of_ne_nil hne
  rintro ⟨⟩
  rw [hp _ List.mem_cons_self] at he
  cases he

/-- A statement is scanned as terminals that derive it, and a semicolon where another statement
follows. -/
def WritesStatement (s : Stmt) : Prop :=
  ∃ ts, IsStatement ts s ∧
    (∀ rest, terminals ((s.render ++ s.gap).toList ++ rest) =
      ts ++ ⟨.semicolon, ";"⟩ :: terminals rest) ∧
    (Writes s.render ts ∨ Writes s.render (ts ++ [⟨.semicolon, ";"⟩]))

theorem writesStatement_of_closed {s : Stmt} {ts : List Terminal} (hg : s.gap = " ")
    (hs : IsStatement ts s)
    (hw : ∀ rest, terminals (s.render.toList ++ rest) =
      ts ++ ⟨.semicolon, ";"⟩ :: terminals rest) : WritesStatement s := by
  refine ⟨ts, hs, fun rest => ?_, .inr fun rest _ => ?_⟩
  · rw [hg, String.toList_append, List.append_assoc, hw]
    simp
  · rw [hw, List.append_assoc]
    rfl

/-- The text of an expression does not make another sign of the one in front of it. -/
theorem Expr.head_render_ne : ∀ e : Expr, e.WellFormed → ∀ rest : List Char,
    (e.render.toList ++ rest).head? ≠ some '='
  | .identifier x, h =>
    head_append_ne (fun hn => h.ne_empty (String.toList_eq_nil_iff.1 hn)) h.isLetter (by decide)
  | .integer n, h =>
    head_append_ne (Decimal.render_ne_nil h) (fun _ => Decimal.isDigit_of_mem_render h) (by decide)
  | .string c, _ => by simp [Expr.render, Quoted.encode]
  | .boolean true, _ | .boolean false, _ => by
    rintro rest ⟨⟩
  | .unary _ _, _ | .binary _ _ _, _ | .conditional _ _ none, _ | .conditional _ _ (some _), _
  | .function _ _, _ => by simp [Expr.render]
  | .call f as, h => by
    intro rest
    simp only [Expr.render, String.toList_append, List.append_assoc]
    exact f.head_render_ne h.1 _

mutual

/-- The text of an expression is scanned as terminals that derive it. -/
theorem Expr.writes : ∀ e : Expr, e.WellFormed → ∃ ts, Writes e.render ts ∧ IsExpr .call ts e
  | .identifier x, h => by
    refine ⟨[⟨.identifier, x⟩], fun rest hr => ?_, .tighter .identifier⟩
    exact terminals_name h hr
  | .integer n, h => by
    refine ⟨[⟨.integer, Decimal.render n⟩], fun rest hr => ?_, ?_⟩
    · exact terminals_integer h hr
    · have hd := @IsExpr.integer (Decimal.render n)
      rw [Decimal.value_render h, Decimal.ofNat_toNat h] at hd
      exact .tighter (hd (Decimal.toNat_le_largest n))
  | .string c, _ => by
    refine ⟨[⟨.string, c⟩], fun rest _ => ?_, .tighter .string⟩
    rw [Expr.render, String.toList_ofList, terminals_quoted, String.ofList_toList]
    rfl
  | .boolean true, _ => by
    refine ⟨[⟨.trueWord, "true"⟩], fun rest hr => ?_, .tighter .trueWord⟩
    exact terminals_word ['t', 'r', 'u', 'e'] (List.cons_ne_nil _ _) (List.all_eq_true.1 rfl) hr
  | .boolean false, _ => by
    refine ⟨[⟨.falseWord, "false"⟩], fun rest hr => ?_, .tighter .falseWord⟩
    exact terminals_word ['f', 'a', 'l', 's', 'e'] (List.cons_ne_nil _ _)
      (List.all_eq_true.1 rfl) hr
  | .unary o a, h => by
    obtain ⟨ts, hts, ha⟩ := a.writes h
    have hd : IsExpr .unary (⟨o.kind, o.sign⟩ :: ts) (.unary o a) :=
      .unary (ha.loosen (by decide))
    refine ⟨_, fun rest _ => ?_, .tighter (.group (p := "(") (q := ")") hd.loosest)⟩
    simp only [Expr.render, String.toList_append, String.reduceToList, List.append_assoc,
      List.cons_append, List.nil_append]
    rw [terminals_mark (by rfl), terminals_unary o (a.head_render_ne h _),
      hts _ (apart_cons _ rfl rfl), terminals_mark (by rfl)]
    rfl
  | .binary o a b, h => by
    obtain ⟨ts, hts, ha⟩ := a.writes h.1
    obtain ⟨us, hus, hb⟩ := b.writes h.2
    obtain ⟨l, hl⟩ := exists_mem_operators o
    have hrank : l.tighter.rank ≤ Level.call.rank :=
      Nat.le_succ_of_le (Level.rank_tighter_le_of_mem hl)
    have hd : IsExpr l (ts ++ ⟨o.kind, o.sign⟩ :: us) (.binary o a b) :=
      .binary hl (ha.loosen (Nat.le_trans l.rank_le_rank_tighter hrank)) (hb.loosen hrank)
    refine ⟨_, fun rest _ => ?_, .tighter (.group (p := "(") (q := ")") hd.loosest)⟩
    simp only [Expr.render, String.toList_append, String.reduceToList, List.append_assoc,
      List.cons_append, List.nil_append]
    rw [terminals_mark (by rfl), hts _ (apart_cons _ rfl rfl), terminals_space, terminals_binary,
      hus _ (apart_cons _ rfl rfl), terminals_mark (by rfl)]
    rfl
  | .conditional c a none, h => by
    obtain ⟨ts, hts, hc⟩ := c.writes h.1
    obtain ⟨us, hus, ha⟩ := writes_statements a h.2
    refine ⟨_, fun rest _ => ?_, .tighter (.oneBranch (w := "if") (p := "(") (q := ")")
      hc.loosest (.braces (p := "\x7b") (q := "\x7d") ha))⟩
    simp only [Expr.render, String.toList_append, String.reduceToList, List.append_assoc,
      List.cons_append, List.nil_append]
    rw [terminals_if, hts _ (apart_cons _ rfl rfl), terminals_mark (by rfl), terminals_space,
      terminals_braced hus ha]
    rfl
  | .conditional c a (some b), h => by
    obtain ⟨ts, hts, hc⟩ := c.writes h.1
    obtain ⟨us, hus, ha⟩ := writes_statements a h.2.1
    obtain ⟨vs, hvs, hb⟩ := writes_statements b h.2.2
    refine ⟨_, fun rest _ => ?_, .tighter (.twoBranches (w := "if") (v := "else") (p := "(")
      (q := ")") hc.loosest (.braces (p := "\x7b") (q := "\x7d") ha)
      (.braces (p := "\x7b") (q := "\x7d") hb))⟩
    simp only [Expr.render, String.toList_append, String.reduceToList, List.append_assoc,
      List.cons_append, List.nil_append]
    rw [terminals_if, hts _ (apart_cons _ rfl rfl), terminals_mark (by rfl), terminals_space,
      terminals_braced hus ha, terminals_else, terminals_braced hvs hb]
    rfl
  | .function xs a, h => by
    obtain ⟨ts, hts, hx⟩ := writes_parameters xs h.1
    obtain ⟨us, hus, ha⟩ := writes_statements a h.2
    refine ⟨_, fun rest _ => ?_, .tighter (.function (w := "fn") (p := "(") (q := ")") hx
      (.braces (p := "\x7b") (q := "\x7d") ha))⟩
    simp only [Expr.render, String.toList_append, String.reduceToList, List.append_assoc,
      List.cons_append, List.nil_append]
    rw [terminals_function, hts _ (apart_cons _ rfl rfl), terminals_mark (by rfl), terminals_space,
      terminals_braced hus ha]
    rfl
  | .call f as, h => by
    obtain ⟨ts, hts, hf⟩ := f.writes h.1
    obtain ⟨us, hus, ha⟩ := writes_arguments as h.2
    refine ⟨_, fun rest _ => ?_, .call (p := "(") (q := ")") hf ha⟩
    simp only [Expr.render, String.toList_append, String.reduceToList, List.append_assoc,
      List.cons_append, List.nil_append]
    rw [hts _ (apart_cons _ rfl rfl), terminals_mark (by rfl), hus _ (apart_cons _ rfl rfl),
      terminals_mark (by rfl)]
    rfl

/-- The text of arguments is scanned as terminals that derive them. -/
theorem writes_arguments : ∀ es : List Expr, WellFormedArguments es →
    ∃ ts, Writes (renderArguments es) ts ∧ IsArguments ts es
  | [], _ => ⟨[], fun _ _ => rfl, .none⟩
  | [e], h => by
    obtain ⟨ts, hts, hd⟩ := e.writes h.1
    exact ⟨ts, hts, .some (.one hd.loosest)⟩
  | e :: e' :: es, h => by
    obtain ⟨ts, hts, hd⟩ := e.writes h.1
    obtain ⟨us, hus, hds⟩ := writes_arguments (e' :: es) h.2
    cases hds with
    | some hds =>
      refine ⟨_, fun rest hr => ?_, .some (.more (c := ",") hd.loosest hds)⟩
      simp only [renderArguments, String.toList_append, String.reduceToList, List.append_assoc,
        List.cons_append, List.nil_append]
      rw [hts _ (apart_cons _ rfl rfl), terminals_mark (by rfl), terminals_space, hus rest hr]
      rfl

theorem Stmt.writes : ∀ s : Stmt, s.WellFormed → WritesStatement s
  | .binding x e, h => by
    obtain ⟨ts, hts, hd⟩ := e.writes h.2
    refine writesStatement_of_closed rfl (.binding (w := "let") (x := x) (q := "=")
      hd.loosest) fun rest => ?_
    simp only [Stmt.render, String.toList_append, String.reduceToList, List.append_assoc,
      List.cons_append, List.nil_append]
    rw [terminals_let, terminals_name h.1 (apart_cons _ rfl rfl), terminals_space,
      terminals_assign, hts _ (apart_cons _ rfl rfl), terminals_mark (by rfl)]
    rfl
  | .leave e, h => by
    obtain ⟨ts, hts, hd⟩ := e.writes h
    refine writesStatement_of_closed rfl (.leave (w := "return") hd.loosest) fun rest => ?_
    simp only [Stmt.render, String.toList_append, String.reduceToList, List.append_assoc,
      List.cons_append, List.nil_append]
    rw [terminals_return, hts _ (apart_cons _ rfl rfl), terminals_mark (by rfl)]
    rfl
  | .expression e, h => by
    obtain ⟨ts, hts, hd⟩ := e.writes h
    refine ⟨ts, .expression hd.loosest, fun rest => ?_, .inl hts⟩
    simp only [Stmt.render, Stmt.gap, String.toList_append, String.reduceToList, List.append_assoc,
      List.cons_append, List.nil_append]
    rw [hts _ (apart_cons _ rfl rfl), terminals_mark (by rfl), terminals_space]
    rfl

/-- The text of statements in a row is scanned as terminals that derive them. -/
theorem writes_statements : ∀ ss : List Stmt, WellFormedStatements ss →
    ∃ ts, Writes (renderStatements ss) ts ∧ IsStatements ts ss
  | [], _ => ⟨[], fun _ _ => rfl, .nil⟩
  | [s], h => by
    obtain ⟨ts, hs, -, hw | hw⟩ := s.writes h.1
    · refine ⟨ts, hw, ?_⟩
      have hd := IsStatements.bare hs rfl .nil
      rwa [List.append_nil] at hd
    · exact ⟨_, hw, .closed hs .nil⟩
  | s :: s' :: ss, h => by
    obtain ⟨ts, hs, hw, -⟩ := s.writes h.1
    obtain ⟨us, hus, hds⟩ := writes_statements (s' :: ss) h.2
    refine ⟨_, fun rest hr => ?_, .closed (c := ";") hs hds⟩
    have hrender : renderStatements (s :: s' :: ss) =
        s.render ++ s.gap ++ renderStatements (s' :: ss) := rfl
    rw [hrender, String.toList_append, List.append_assoc, hw, hus rest hr, List.append_assoc]
    rfl

end

/-- A program that is one expression is written as that is. -/
theorem Program.render_expression (e : Expr) :
    (Program.mk [.expression e]).render = e.render := by
  simp only [render, renderStatements, Stmt.render]

/-- A well-formed program is what its text derives. -/
theorem Program.isProgram_render {p : Program} (h : p.WellFormed) :
    IsProgram (terminals p.render.toList) p := by
  obtain ⟨ts, hts, hd⟩ := writes_statements p.statements h
  have hscan := hts [] apart_nil
  rw [List.append_nil, terminals_nil, List.append_nil] at hscan
  rw [Program.render, hscan]
  exact hd

/-- Every program read from a source is well-formed; the text of a well-formed program is read back
as that program, without errors; and so is the text of whatever was read from a source. -/
theorem parse_render_roundTrip :
    (∀ source, (parse source).program.WellFormed) ∧
    (∀ p : Program, p.WellFormed →
      (parse p.render).errors = [] ∧ (parse p.render).program = p) ∧
    ∀ source, (parse (parse source).program.render).errors = [] ∧
      (parse (parse source).program.render).program = (parse source).program := by
  refine ⟨wellFormed_parse, fun p h => ?_, fun source => ?_⟩
  · exact parse_of_isProgram (Program.isProgram_render h)
  · exact parse_of_isProgram (Program.isProgram_render (wellFormed_parse source))

/-- A call of a conditional, with a sign in front of its argument and a string to be escaped. -/
theorem parse_render_roundTrip_call :
    let p : Program := ⟨[.binding "s" (.string "\"\\"), .expression (.call
      (.conditional (.identifier "s") [.leave (.boolean true)] (some []))
      [.unary .negate (.integer 1)])]⟩
    p.WellFormed ∧ (parse p.render).errors = [] ∧ (parse p.render).program = p := by
  intro p
  have hs : IsName "s" := ⟨by decide, List.all_eq_true.1 rfl, by decide⟩
  have hn : 0 ≤ (1 : Int64).toInt := by decide
  have h : p.WellFormed :=
    ⟨⟨hs, trivial⟩, ⟨⟨hs, ⟨trivial, trivial⟩, trivial⟩, hn, trivial⟩, trivial⟩
  exact ⟨h, parse_render_roundTrip.2.1 p h⟩

end MonkeyLang
