import MonkeyLang.Eval.Fault
import MonkeyLang.Scope.Store

/-!
# Evaluations

An `Evaluation` runs in a store and leaves a store behind. It ends in one of three ways: with a
result, by a `return` that travels outwards until a call takes it, or by a fault that travels
outwards to the end. Either exit skips what would have come next and keeps the store as it stands.
An evaluation that nests more deeply than it is allowed to does not end at all, which is `none`
and no outcome.
-/

namespace MonkeyLang

/-- How an evaluation ends. -/
inductive Outcome (α : Type) where
  /-- With a result. -/
  | result (value : α)
  /-- By a `return` of a value. -/
  | left (value : Value)
  /-- By a fault. -/
  | faulted (fault : Fault)

/-- A computation over a store that may leave by a `return` or a fault, or not end. -/
def Evaluation (α : Type) : Type := Store → Option (Outcome α × Store)

namespace Evaluation

variable {α β : Type}

/-- Ends with a result at once. -/
@[always_inline, inline] def done (value : α) : Evaluation α := fun s => some (.result value, s)

/-- One evaluation after another; an exit of the first is an exit of both. -/
@[always_inline, inline] def andThen (m : Evaluation α) (f : α → Evaluation β) : Evaluation β :=
  fun s =>
    match m s with
    | none => none
    | some (.result value, s) => f value s
    | some (.left value, s) => some (.left value, s)
    | some (.faulted fault, s) => some (.faulted fault, s)

@[always_inline] instance : Monad Evaluation where
  pure := done
  bind := andThen

/-- What follows a result runs with it, in the store it left. -/
theorem bind_of_result {m : Evaluation α} {f : α → Evaluation β} {s t : Store} {value : α}
    (h : m s = some (.result value, t)) : (m >>= f) s = f value t := by
  simp only [Bind.bind, andThen, h]

/-- What follows a `return` is skipped. -/
theorem bind_of_left {m : Evaluation α} {f : α → Evaluation β} {s t : Store} {value : Value}
    (h : m s = some (.left value, t)) : (m >>= f) s = some (.left value, t) := by
  simp only [Bind.bind, andThen, h]

/-- What follows a fault is skipped. -/
theorem bind_of_faulted {m : Evaluation α} {f : α → Evaluation β} {s t : Store} {fault : Fault}
    (h : m s = some (.faulted fault, t)) : (m >>= f) s = some (.faulted fault, t) := by
  simp only [Bind.bind, andThen, h]

/-- Nothing follows what does not end. -/
theorem bind_of_none {m : Evaluation α} {f : α → Evaluation β} {s : Store} (h : m s = none) :
    (m >>= f) s = none := by
  simp only [Bind.bind, andThen, h]

instance : LawfulMonad Evaluation :=
  .mk' Evaluation
    (fun m => by
      funext s
      show andThen m done s = m s
      unfold andThen
      split <;> simp_all [done])
    (fun _ _ => rfl)
    (fun m f g => by
      funext s
      show andThen (andThen m f) g s = andThen m (fun a => andThen (f a) g) s
      simp only [andThen]
      cases m s with
      | none => rfl
      | some r =>
        obtain ⟨_ | _ | _, _⟩ := r <;> rfl)

/-- Nests too deeply. -/
def endless : Evaluation α := fun _ => none

/-- Leaves with a value. -/
def leave (value : Value) : Evaluation α := fun s => some (.left value, s)

/-- Leaves by a fault. -/
def fail (fault : Fault) : Evaluation α := fun s => some (.faulted fault, s)

/-- What an operator or a builtin computes. -/
def ofExcept : Except Fault α → Evaluation α
  | .ok value => done value
  | .error fault => fail fault

/-- Takes a `return` as the result. -/
@[always_inline, inline] def returning (m : Evaluation Value) : Evaluation Value := fun s =>
  match m s with
  | some (.left value, s) => some (.result value, s)
  | other => other

/-- The value of a name: from the scopes seen from `σ`, or else a builtin. -/
def lookup (σ : ScopeId) (name : String) : Evaluation Value := fun s =>
  match s.get? σ name with
  | some value => some (.result value, s)
  | none =>
    match Builtin.ofName? name with
    | some builtin => some (.result (.builtin builtin), s)
    | none => some (.faulted (.unbound name), s)

/-- Binds a name in a scope. -/
def define (σ : ScopeId) (name : String) (value : Value) : Evaluation Unit := fun s =>
  some (.result (), s.set σ name value)

/-- A new closure over a scope. -/
def closure (σ : ScopeId) (parameters : List String) (body : List Stmt) : Evaluation Value :=
  fun s => some (.result (.function ⟨s.fresh.1, parameters, body, σ⟩), s.fresh.2)

/-- The bindings of parameters to arguments by position: arguments too many are dropped,
parameters too many stay unbound, and of parameters of one name the last counts. -/
def bindParameters (parameters : List String) (values : List Value) : Bindings Value :=
  (parameters.zip values).foldl (fun b (name, value) => b.insert name value) .empty

/-- A new scope for a call of a closure: its parameters bound, inside the scope it was written
in. -/
def enter (f : Closure) (values : List Value) : Evaluation ScopeId := fun s =>
  let (σ, s) := s.add (bindParameters f.parameters values) (s.chain f.scope)
  some (.result σ, s)

/-- Runs statements in a row. The result is that of the last one, or `last` if there is none. -/
@[specialize] def inOrder (run : Stmt → Evaluation Value) (last : Value) :
    List Stmt → Evaluation Value
  | [] => done last
  | s :: rest => do
    let value ← run s
    inOrder run value rest

/-- Runs statements in a row, no further than to a `return`, whose value is the result then. -/
@[specialize] def upToReturn (run : Stmt → Evaluation Value) (last : Value) :
    List Stmt → Evaluation Value
  | [] => done last
  | st :: rest => fun s =>
    match run st s with
    | none => none
    | some (.result v, t) => upToReturn run v rest t
    | some (.left v, t) => some (.result v, t)
    | some (.faulted fault, t) => some (.faulted fault, t)

/-- Statements up to a `return` are statements in a row, with a `return` taken as the result. -/
theorem returning_inOrder (run : Stmt → Evaluation Value) (last : Value) (ss : List Stmt) :
    returning (inOrder run last ss) = upToReturn run last ss := by
  induction ss generalizing last with
  | nil => rfl
  | cons st ss ih =>
    funext s
    have hcons : inOrder run last (st :: ss) = run st >>= fun v => inOrder run v ss := rfl
    simp only [returning, upToReturn, hcons]
    rcases hrun : run st s with _ | ⟨v | v | fault, t⟩
    · rw [bind_of_none hrun]
    · rw [bind_of_result hrun]
      exact congrFun (ih v) t
    · rw [bind_of_left hrun]
    · rw [bind_of_faulted hrun]

/-- Evaluates expressions in a row, to all their values. -/
@[specialize] def each (run : Expr → Evaluation Value) : List Expr → Evaluation (List Value)
  | [] => done []
  | a :: rest => do
    let value ← run a
    let values ← each run rest
    return value :: values

end Evaluation

end MonkeyLang
