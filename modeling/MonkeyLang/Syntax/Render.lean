import MonkeyLang.Syntax.Basic
import MonkeyLang.Text.Decimal
import MonkeyLang.Text.Quoted

/-!
# Programs as source text

Every tree has one canonical text. Operators and their operands stand in parentheses, so the text
of an expression needs no precedence to be read. Statements stand one space apart; a binding and a
return carry a semicolon of their own, and an expression gets one where another statement follows
it, so that the two cannot run together. A block without statements is a pair of braces with a
space between.
-/

namespace MonkeyLang

/-- What stands between a statement and the next one. -/
def Stmt.gap : Stmt → String
  | .expression _ => "; "
  | _ => " "

/-- The names of parameters, with commas between them. -/
def renderParameters : List String → String
  | [] => ""
  | [name] => name
  | name :: names => name ++ ", " ++ renderParameters names

/-- Statements in braces, given their text. -/
def braced (statements : List Stmt) (text : String) : String :=
  if statements.isEmpty then "\x7b \x7d" else "\x7b " ++ text ++ " \x7d"

mutual

/-- The text of an expression. -/
def Expr.render : Expr → String
  | .identifier name => name
  | .integer value => Decimal.render value
  | .string contents => String.ofList (Quoted.encode contents.toList)
  | .boolean value => toString value
  | .unary operator operand => "(" ++ operator.sign ++ operand.render ++ ")"
  | .binary operator left right =>
    "(" ++ left.render ++ " " ++ operator.sign ++ " " ++ right.render ++ ")"
  | .conditional condition consequence none =>
    "if (" ++ condition.render ++ ") " ++ braced consequence (renderStatements consequence)
  | .conditional condition consequence (some alternative) =>
    "if (" ++ condition.render ++ ") " ++ braced consequence (renderStatements consequence) ++
      " else " ++ braced alternative (renderStatements alternative)
  | .function parameters body =>
    "fn(" ++ renderParameters parameters ++ ") " ++ braced body (renderStatements body)
  | .call callee arguments => callee.render ++ "(" ++ renderArguments arguments ++ ")"

/-- The text of a statement. -/
def Stmt.render : Stmt → String
  | .binding name value => "let " ++ name ++ " = " ++ value.render ++ ";"
  | .leave value => "return " ++ value.render ++ ";"
  | .expression value => value.render
  | .block statements => braced statements (renderStatements statements)

/-- The text of statements in a row. -/
def renderStatements : List Stmt → String
  | [] => ""
  | [s] => s.render
  | s :: rest => s.render ++ s.gap ++ renderStatements rest

/-- The text of arguments, with commas between them. -/
def renderArguments : List Expr → String
  | [] => ""
  | [a] => a.render
  | a :: rest => a.render ++ ", " ++ renderArguments rest

end

/-- The text of a program. -/
def Program.render (p : Program) : String := renderStatements p.statements

end MonkeyLang
