import MonkeyLang.Proofs.Grammar.Parse
import MonkeyLang.Proofs.Text.Decimal

/-!
# Well-formed programs

A tree can hold what no source text says: a name with a blank in it, a negative integer, a block by
itself. `Program.WellFormed` leaves these out. `wellFormed_parse` says that every tree that comes
out of a source is well-formed, whatever is wrong with the source: productions build nodes only from
terminals that scanning has vouched for, and well-formed trees make up well-formed ones
(`Production.Forms.wellFormed`).
-/

namespace MonkeyLang

/-- A word of letters and underscores that is no keyword. -/
structure IsName (name : String) : Prop where
  ne_empty : name ≠ ""
  isLetter : ∀ c ∈ name.toList, isLetter c = true
  not_keyword : name ∉ keywords

mutual

/-- All names in an expression are names, and no integer in it is negative. -/
def Expr.WellFormed : Expr → Prop
  | .identifier name => IsName name
  | .integer value => 0 ≤ value.toInt
  | .string _ => True
  | .boolean _ => True
  | .unary _ operand => operand.WellFormed
  | .binary _ left right => left.WellFormed ∧ right.WellFormed
  | .conditional condition consequence none =>
    condition.WellFormed ∧ WellFormedStatements consequence
  | .conditional condition consequence (some alternative) =>
    condition.WellFormed ∧ WellFormedStatements consequence ∧ WellFormedStatements alternative
  | .function parameters body => (∀ x ∈ parameters, IsName x) ∧ WellFormedStatements body
  | .call callee arguments => callee.WellFormed ∧ WellFormedArguments arguments

/-- A statement is well-formed if what it is made of is. A block by itself is not. -/
def Stmt.WellFormed : Stmt → Prop
  | .binding name value => IsName name ∧ value.WellFormed
  | .leave value => value.WellFormed
  | .expression value => value.WellFormed
  | .block _ => False

/-- Well-formed statements in a row. -/
def WellFormedStatements : List Stmt → Prop
  | [] => True
  | s :: rest => s.WellFormed ∧ WellFormedStatements rest

/-- Well-formed expressions in a row. -/
def WellFormedArguments : List Expr → Prop
  | [] => True
  | a :: rest => a.WellFormed ∧ WellFormedArguments rest

end

/-- A program is well-formed if all its statements are. -/
def Program.WellFormed (p : Program) : Prop := WellFormedStatements p.statements

theorem wellFormed_conditional {c : Expr} {a : List Stmt} {b : Option (List Stmt)} :
    (Expr.conditional c a b).WellFormed ↔
      c.WellFormed ∧ WellFormedStatements a ∧ ∀ ss ∈ b, WellFormedStatements ss := by
  cases b <;> simp [Expr.WellFormed]

/-! ## What scanning vouches for -/

/-- All identifiers among the terminals are names. -/
def Named (ts : List Terminal) : Prop := ∀ t ∈ ts, t.kind = .identifier → IsName t.literal

/-- A lexeme that is an identifier is a name. -/
theorem Lexeme.isName_of_read {c : Char} {rest : List Char}
    (h : (read c rest).kind = .identifier) : IsName (read c rest).literal := by
  obtain ⟨hc, hread, hword⟩ := read_of_identifier h
  rw [hread, literal_of_ne Kind.noConfusion]
  refine ⟨?_, ?_, Kind.ofWord_eq_identifier_iff.1 hword⟩
  · simp
  · rw [String.toList_ofList]
    rintro d (_ | ⟨_, hd⟩)
    · exact hc
    · exact List.all_eq_true.1 List.all_takeWhile d hd

/-- The identifiers of a text are names. -/
theorem Token.named_terminals (text : List Char) : Named (terminals text) := by
  intro t ht hk
  obtain ⟨c, rest, rfl⟩ := exists_read_of_mem ht
  exact Lexeme.isName_of_read hk

/-! ## What productions make of it -/

theorem wellFormed_integer {literal : String} {value : Int64}
    (h : Decimal.int64? literal.toList = some value) : (Expr.integer value).WellFormed := by
  simp only [Decimal.int64?, Option.ite_none_right_eq_some, Option.some.injEq] at h
  obtain ⟨hle, rfl⟩ := h
  rw [Expr.WellFormed, Decimal.toInt_ofNat_of_le hle]
  exact Int.natCast_nonneg _

/-- From terminals whose identifiers are names productions make well-formed trees. -/
def Production.Forms.wellFormed : Production.Forms where
  terminal t := t.kind = .identifier → IsName t.literal
  name := IsName
  expr := Expr.WellFormed
  exprs := WellFormedArguments
  stmt := Stmt.WellFormed
  stmts := WellFormedStatements
  name_of h := h rfl
  identifier h := h
  integer := wellFormed_integer
  string _ := trivial
  boolean _ := trivial
  unary h := h
  binary h h' := ⟨h, h'⟩
  conditional hc ha hb := wellFormed_conditional.2 ⟨hc, ha, hb⟩
  function hx hbody := ⟨hx, hbody⟩
  call hf hes := ⟨hf, hes⟩
  exprs_nil := trivial
  exprs_cons h h' := ⟨h, h'⟩
  binding hx he := ⟨hx, he⟩
  leave h := h
  expression h := h
  stmts_nil := trivial
  stmts_cons h h' := ⟨h, h'⟩

/-- Whatever is read from the terminals of a text is well-formed. -/
theorem wellFormed_ofTerminals {ts : List Terminal} (h : Named ts) :
    (Program.ofTerminals ts).program.WellFormed :=
  (Production.Law.progress.ofTerminals .wellFormed h).1

/-- The program read from a source is well-formed, with or without syntax errors. -/
theorem wellFormed_parse (source : String) : (parse source).program.WellFormed := by
  rw [program_parse]
  exact wellFormed_ofTerminals (Token.named_terminals source.toList)

end MonkeyLang
