import MonkeyLang.Token.Kind

/-!
# Operators and their binding strength

The operators of expressions, the signs they are written with, and how tightly they bind. From
the weakest: `==` and `!=`, then `<` and `>`, then `+` and `-`, then `*` and `/`, then an operator
in front of its operand, then a call. Operators of one strength group to the left.
-/

namespace MonkeyLang

/-- The operators that stand in front of one operand. -/
inductive UnaryOperator where
  | not
  | negate
deriving DecidableEq, Repr, Inhabited

/-- The operators that stand between two operands. -/
inductive BinaryOperator where
  | add | subtract | multiply | divide | less | greater | equal | notEqual
deriving DecidableEq, Repr, Inhabited

/-- Binding strength, the weakest first. -/
inductive Precedence where
  | lowest | equality | comparison | sum | product | unary | call
deriving DecidableEq, Repr, Inhabited

namespace Precedence

/-- The place of a precedence among all of them. -/
def rank : Precedence → Nat
  | lowest => 0
  | equality => 1
  | comparison => 2
  | sum => 3
  | product => 4
  | unary => 5
  | call => 6

instance : LT Precedence := ⟨fun a b => a.rank < b.rank⟩

instance : LE Precedence := ⟨fun a b => a.rank ≤ b.rank⟩

instance (a b : Precedence) : Decidable (a < b) := inferInstanceAs (Decidable (a.rank < b.rank))

instance (a b : Precedence) : Decidable (a ≤ b) := inferInstanceAs (Decidable (a.rank ≤ b.rank))

theorem lt_iff {a b : Precedence} : a < b ↔ a.rank < b.rank := Iff.rfl

end Precedence

namespace UnaryOperator

/-- The sign an operator is written with. -/
def sign : UnaryOperator → String
  | not => "!"
  | negate => "-"

/-- The operator that a kind of token stands for in front of an operand. -/
def ofKind? : Kind → Option UnaryOperator
  | .bang => some not
  | .minus => some negate
  | _ => none

end UnaryOperator

namespace BinaryOperator

/-- The sign an operator is written with. -/
def sign : BinaryOperator → String
  | add => "+"
  | subtract => "-"
  | multiply => "*"
  | divide => "/"
  | less => "<"
  | greater => ">"
  | equal => "=="
  | notEqual => "!="

/-- The operator that a kind of token stands for between two operands. -/
def ofKind? : Kind → Option BinaryOperator
  | .plus => some add
  | .minus => some subtract
  | .asterisk => some multiply
  | .slash => some divide
  | .less => some less
  | .greater => some greater
  | .equal => some equal
  | .notEqual => some notEqual
  | _ => none

/-- How tightly an operator binds. -/
def precedence : BinaryOperator → Precedence
  | add | subtract => .sum
  | multiply | divide => .product
  | less | greater => .comparison
  | equal | notEqual => .equality

end BinaryOperator

/-- How tightly a token binds to the expression in front of it: an operator by its own strength,
an opening parenthesis as a call, anything else not at all. -/
def Kind.precedence (k : Kind) : Precedence :=
  match BinaryOperator.ofKind? k with
  | some operator => operator.precedence
  | none => if k = .leftParen then .call else .lowest

/-- Where no operator stands between operands, only a call binds to what is in front of it. -/
theorem Kind.eq_leftParen_of_lt {k : Kind} {floor : Precedence}
    (ho : BinaryOperator.ofKind? k = none) (h : floor < k.precedence) : k = .leftParen := by
  revert ho h
  cases k <;> cases floor <;> decide

/-- No semicolon binds to what is in front of it. -/
theorem Kind.ne_semicolon_of_lt {k : Kind} {floor : Precedence} (h : floor < k.precedence) :
    k ≠ .semicolon := by
  rintro rfl
  revert h
  cases floor <;> decide

/-- An operator binds by its own strength. -/
theorem Kind.precedence_of_operator {k : Kind} {operator : BinaryOperator}
    (h : BinaryOperator.ofKind? k = some operator) : k.precedence = operator.precedence := by
  rw [precedence, h]

end MonkeyLang
