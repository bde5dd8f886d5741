import MonkeyLang.Eval.Basic
import MonkeyLang.Syntax.Parse

/-!
# Running programs

`Program.evaluate` runs a program in a scope of a store. A `return` ends it with the value
returned, and a fault ends it with a new error value that carries the message of the fault; in
either case the bindings made until then stay. `interpretIn` reads a source and runs it, unless
it has syntax errors: then nothing is run.

An evaluation may nest as deeply as the bound it is given. `defaultDepth` is one that no machine
has the memory to reach.
-/

namespace MonkeyLang

/-- The value that an evaluation comes to at the outermost level. -/
def Evaluation.conclude (m : Evaluation Value) (s : Store) : Option (Value × Store) :=
  match m s with
  | none => none
  | some (.result value, s) => some (value, s)
  | some (.left value, s) => some (value, s)
  | some (.faulted fault, s) => some (s.newError fault.message)

/-- Runs a program in a scope. -/
def Program.evaluate (depth : Nat) (p : Program) (σ : ScopeId) : Store → Option (Value × Store) :=
  (evalProgram depth σ p.statements).conclude

/-- At the outermost level a `return` counts as a result anyway. -/
theorem Evaluation.conclude_returning (m : Evaluation Value) :
    (returning m).conclude = m.conclude := by
  funext s
  simp only [conclude, returning]
  rcases m s with _ | ⟨_ | _ | _, _⟩ <;> rfl

/-- A program comes to what a block of its statements comes to. -/
theorem Program.evaluate_eq_evalBlock (depth : Nat) (p : Program) (σ : ScopeId) :
    p.evaluate depth σ = (evalBlock depth σ p.statements).conclude := by
  rw [evaluate, ← returning_evalBlock, Evaluation.conclude_returning]

/-- Evaluates a single expression in a scope. -/
def Expr.evaluate (depth : Nat) (e : Expr) (σ : ScopeId) : Store → Option (Value × Store) :=
  (evalExpr depth σ e).conclude

/-- How deeply an evaluation may nest if nothing else is asked for. -/
def defaultDepth : Nat := 0x4000000000000000

/-- What comes of a source: the value it evaluates to, or its syntax errors. -/
inductive Interpretation where
  | value (value : Value)
  | rejected (errors : List SyntaxError)
deriving Inhabited

/-- Reads and runs a source in a scope. -/
def interpretIn (depth : Nat) (source : String) (σ : ScopeId) (s : Store) :
    Option (Interpretation × Store) :=
  let parsed := parse source
  if parsed.errors.isEmpty then
    (parsed.program.evaluate depth σ s).map fun (value, s) => (.value value, s)
  else some (.rejected parsed.errors, s)

/-- Reads and runs a source in a store of its own. -/
def interpret (depth : Nat) (source : String) : Option (Interpretation × Store) :=
  interpretIn depth source 0 .initial

end MonkeyLang
