import MonkeyLang.Syntax.Operator
import MonkeyLang.Text.Decimal

/-!
# Programs

A program is a list of statements; the bodies of functions and the branches of a conditional are
lists of statements too. Statements and expressions contain each other, so the two types are
declared together. Integers are signed 64-bit words. A statement may be a block by itself, which
source text has no way to write but trees may hold.
-/

namespace MonkeyLang

mutual

/-- Expressions. -/
inductive Expr where
  | identifier (name : String)
  | integer (value : Int64)
  | string (contents : String)
  | boolean (value : Bool)
  | unary (operator : UnaryOperator) (operand : Expr)
  | binary (operator : BinaryOperator) (left right : Expr)
  | conditional (condition : Expr) (consequence : List Stmt) (alternative : Option (List Stmt))
  | function (parameters : List String) (body : List Stmt)
  | call (callee : Expr) (arguments : List Expr)

/-- Statements: a name bound to a value, a value to leave with, an expression, a block. -/
inductive Stmt where
  | binding (name : String) (value : Expr)
  | leave (value : Expr)
  | expression (value : Expr)
  | block (statements : List Stmt)

end

instance : Inhabited Expr := ⟨.boolean false⟩

instance : Inhabited Stmt := ⟨.block []⟩

/-- A program: its statements, in order. -/
structure Program where
  statements : List Stmt
deriving Inhabited

namespace Program

/-- The number of statements. -/
def size (p : Program) : Nat := p.statements.length

/-- Has the program no statement? -/
def isEmpty (p : Program) : Bool := p.statements.isEmpty

end Program

/-- The literal of the token that an expression is named after: its operator, its first word, the
parenthesis of a call, or the value itself. -/
def Expr.keyLiteral : Expr → String
  | .identifier name => name
  | .integer value => Decimal.render value
  | .string contents => contents
  | .boolean value => toString value
  | .unary operator _ => operator.sign
  | .binary operator _ _ => operator.sign
  | .conditional _ _ _ => "if"
  | .function _ _ => "fn"
  | .call _ _ => "("

/-- The literal of the token that a statement is named after. -/
def Stmt.keyLiteral : Stmt → String
  | .binding _ _ => "let"
  | .leave _ => "return"
  | .expression value => value.keyLiteral
  | .block _ => "\x7b"

/-- The literal of the token that a program is named after: that of its first statement. -/
def Program.keyLiteral (p : Program) : String :=
  match p.statements with
  | [] => ""
  | s :: _ => s.keyLiteral

end MonkeyLang
