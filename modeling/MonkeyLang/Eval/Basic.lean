import MonkeyLang.Eval.Evaluation
import MonkeyLang.Eval.Operators

/-!
# Evaluation of expressions, statements and calls

Operands are evaluated from left to right, the callee of a call before its arguments. A binding
has the value `null`, and so has a conditional without the branch it needs; statements in a row
have the value of the last one. Only a call opens a scope: the branches of a conditional and
blocks run in the scope they stand in. A call evaluates the body of the closure in a new scope
inside the closure's own, and the value of a `return` in the body is the value of the call.

The three functions count down a bound on how deeply they may nest.
-/

namespace MonkeyLang

open Evaluation

mutual

/-- Evaluates an expression in a scope. -/
def evalExpr : Nat → ScopeId → Expr → Evaluation Value
  | 0, _, _ => endless
  | n + 1, σ, e =>
    match e with
    | .identifier name => lookup σ name
    | .integer value => done (.integer value)
    | .string contents => done (.string contents)
    | .boolean value => done (.boolean value)
    | .unary operator operand => do
      let value ← evalExpr n σ operand
      ofExcept (operator.apply value)
    | .binary operator left right => do
      let a ← evalExpr n σ left
      let b ← evalExpr n σ right
      ofExcept (operator.apply a b)
    | .conditional condition consequence alternative => do
      let value ← evalExpr n σ condition
      if value.isTruthy then inOrder (evalStmt n σ) .null consequence
      else inOrder (evalStmt n σ) .null (alternative.getD [])
    | .function parameters body => closure σ parameters body
    | .call callee arguments => do
      let f ← evalExpr n σ callee
      let values ← each (evalExpr n σ) arguments
      apply n f values

/-- Runs a statement in a scope. -/
def evalStmt : Nat → ScopeId → Stmt → Evaluation Value
  | 0, _, _ => endless
  | n + 1, σ, s =>
    match s with
    | .binding name value => do
      let v ← evalExpr n σ value
      define σ name v
      done .null
    | .leave value => do
      let v ← evalExpr n σ value
      leave v
    | .expression value => evalExpr n σ value
    | .block statements => inOrder (evalStmt n σ) .null statements

/-- Calls a value with arguments. -/
def apply : Nat → Value → List Value → Evaluation Value
  | 0, _, _ => endless
  | n + 1, callee, values =>
    match callee with
    | .function f => do
      let σ ← enter f values
      returning (inOrder (evalStmt n σ) .null f.body)
    | .builtin b => ofExcept (b.content.call values)
    | other => fail (.notCallable other.type)

end

/-- Runs statements in a row in a scope, and hands a `return` on. -/
def evalBlock (n : Nat) (σ : ScopeId) (statements : List Stmt) : Evaluation Value :=
  inOrder (evalStmt n σ) .null statements

/-- Runs the statements of a program in a scope. A `return` ends them. -/
def evalProgram (n : Nat) (σ : ScopeId) (statements : List Stmt) : Evaluation Value :=
  upToReturn (evalStmt n σ) .null statements

/-- A program is a block, with a `return` taken as the result. -/
theorem returning_evalBlock (n : Nat) (σ : ScopeId) (statements : List Stmt) :
    returning (evalBlock n σ statements) = evalProgram n σ statements :=
  returning_inOrder _ _ statements

end MonkeyLang
