import MonkeyLang.Eval.Interpret
import MonkeyLang.Proofs.Scope.Store

/-!
# The frame of an evaluation

An evaluation in a scope binds names in that scope and nowhere else: a call works in a scope of its
own, which was not there before. So all other scopes keep their bindings, and a call as a whole
changes no scope there was (`evaluation_frame`).

`Evaluation.Moves R m` says that `R` holds between the store in which `m` runs and the one it
leaves, whichever way it ends. Where `R` is reflexive and transitive, evaluations in sequence move
by `R` if each of them does.
-/

namespace MonkeyLang

namespace Evaluation

/-- `R` holds of the stores before and after `m`, whichever way `m` ends. -/
def Moves {α : Type} (R : Store → Store → Prop) (m : Evaluation α) : Prop :=
  ∀ s o t, m s = some (o, t) → R s t

/-- A relation that holds when nothing is done, and of two steps together if it holds of each. -/
structure Steady (R : Store → Store → Prop) : Prop where
  refl : ∀ s, R s s
  trans : ∀ {s t u}, R s t → R t u → R s u

/-! ## Evaluations in sequence -/

section
variable {α β : Type} {R : Store → Store → Prop} {m : Evaluation α}

theorem Moves.mono {R' : Store → Store → Prop} (h : Moves R m) (hR : ∀ {s t}, R s t → R' s t) :
    Moves R' m := fun s o t hm => hR (h s o t hm)

theorem moves_endless : Moves R (endless : Evaluation α) := by
  intro s o t h
  cases h

theorem Steady.done (hR : Steady R) (a : α) : Moves R (done a) := by
  rintro s _ _ ⟨⟩
  exact hR.refl s

theorem Steady.leave (hR : Steady R) (v : Value) : Moves R (leave v : Evaluation α) := by
  rintro s _ _ ⟨⟩
  exact hR.refl s

theorem Steady.fail (hR : Steady R) (fault : Fault) : Moves R (fail fault : Evaluation α) := by
  rintro s _ _ ⟨⟩
  exact hR.refl s

theorem Steady.ofExcept (hR : Steady R) (e : Except Fault α) : Moves R (ofExcept e) := by
  cases e with
  | ok a => exact hR.done a
  | error fault => exact hR.fail fault

theorem Steady.lookup (hR : Steady R) (σ : ScopeId) (x : String) : Moves R (lookup σ x) := by
  intro s o t h
  unfold Evaluation.lookup at h
  split at h
  · cases h
    exact hR.refl s
  · split at h <;> cases h <;> exact hR.refl s

theorem Steady.bind (hR : Steady R) {f : α → Evaluation β} (hm : Moves R m)
    (hf : ∀ a, Moves R (f a)) : Moves R (m >>= f) := by
  intro s o t h
  rcases hrun : m s with _ | ⟨a | v | fault, u⟩
  · rw [bind_of_none hrun] at h
    cases h
  · rw [bind_of_result hrun] at h
    exact hR.trans (hm s _ u hrun) (hf a u o t h)
  · rw [bind_of_left hrun] at h
    cases h
    exact hm s _ _ hrun
  · rw [bind_of_faulted hrun] at h
    cases h
    exact hm s _ _ hrun

theorem Moves.returning {m : Evaluation Value} (hm : Moves R m) : Moves R (returning m) := by
  intro s o t h
  unfold Evaluation.returning at h
  split at h
  · next v u hrun =>
    cases h
    exact hm s _ _ hrun
  · exact hm s o t h

theorem Steady.inOrder (hR : Steady R) {run : Stmt → Evaluation Value}
    (hrun : ∀ st, Moves R (run st)) (ss : List Stmt) (last : Value) :
    Moves R (inOrder run last ss) := by
  induction ss generalizing last with
  | nil => exact hR.done last
  | cons st ss ih => exact hR.bind (hrun st) fun v => ih v

theorem Steady.each (hR : Steady R) {run : Expr → Evaluation Value}
    (hrun : ∀ e, Moves R (run e)) (es : List Expr) : Moves R (each run es) := by
  induction es with
  | nil => exact hR.done []
  | cons e es ih => exact hR.bind (hrun e) fun v => hR.bind ih fun vs => hR.done (v :: vs)

/-- An error value at the end of an evaluation is one more step. -/
theorem Moves.conclude {m : Evaluation Value} (hR : Steady R) (hm : Moves R m)
    (herror : ∀ s message, R s (s.newError message).2) {s t : Store} {v : Value}
    (h : m.conclude s = some (v, t)) : R s t := by
  unfold Evaluation.conclude at h
  split at h
  · cases h
  · next hrun =>
    cases h
    exact hm s _ _ hrun
  · next hrun =>
    cases h
    exact hm s _ _ hrun
  · next fault u hrun =>
    cases h
    exact hR.trans (hm s _ u hrun) (herror u fault.message)

end

end Evaluation

/-! ## Evaluation within a scope -/

open Evaluation

theorem steady_extends : Steady Store.Extends := ⟨.refl, .trans⟩

theorem steady_within (σ : ScopeId) : Steady (Store.Within σ) :=
  ⟨fun s => (Store.Extends.refl s).within σ, .trans⟩

theorem define_within (σ : ScopeId) (x : String) (v : Value) :
    Moves (Store.Within σ) (define σ x v) := by
  rintro s _ _ ⟨⟩
  exact s.within_set σ x v

theorem closure_within (σ τ : ScopeId) (xs : List String) (body : List Stmt) :
    Moves (Store.Within σ) (closure τ xs body) := by
  rintro s _ _ ⟨⟩
  exact (s.extends_fresh).within σ

mutual

/-- An expression changes no scope but the one it is evaluated in. -/
theorem evalExpr_within : ∀ n σ e, Moves (Store.Within σ) (evalExpr n σ e)
  | 0, _, _ => moves_endless
  | n + 1, σ, e => by
    have hR := steady_within σ
    have hblock := fun ss => hR.inOrder (evalStmt_within n σ) ss .null
    cases e with
    | identifier x => exact hR.lookup σ x
    | integer _ | string _ | boolean _ => exact hR.done _
    | unary o a => exact hR.bind (evalExpr_within n σ a) fun v => hR.ofExcept _
    | binary o a b =>
      exact hR.bind (evalExpr_within n σ a) fun v => hR.bind (evalExpr_within n σ b) fun w =>
        hR.ofExcept _
    | conditional c a b =>
      refine hR.bind (evalExpr_within n σ c) fun v => ?_
      split
      · exact hblock a
      · exact hblock (b.getD [])
    | function xs body => exact closure_within σ σ xs body
    | call f as =>
      exact hR.bind (evalExpr_within n σ f) fun v =>
        hR.bind (hR.each (evalExpr_within n σ) as) fun vs => (apply_extends n v vs).mono fun h =>
          h.within σ

/-- A statement changes no scope but the one it runs in. -/
theorem evalStmt_within : ∀ n σ st, Moves (Store.Within σ) (evalStmt n σ st)
  | 0, _, _ => moves_endless
  | n + 1, σ, st => by
    have hR := steady_within σ
    cases st with
    | binding x e =>
      exact hR.bind (evalExpr_within n σ e) fun v => hR.bind (define_within σ x v) fun _ =>
        hR.done _
    | leave e => exact hR.bind (evalExpr_within n σ e) fun v => hR.leave v
    | expression e => exact evalExpr_within n σ e
    | block ss => exact hR.inOrder (evalStmt_within n σ) ss .null

/-- A call changes no scope at all: its own was not there before. -/
theorem apply_extends : ∀ n f vs, Moves Store.Extends (apply n f vs)
  | 0, _, _ => moves_endless
  | n + 1, f, vs => by
    cases f with
    | function f =>
      intro s o t h
      have hbody := ((steady_within s.scopes.size).inOrder (evalStmt_within n s.scopes.size) f.body
        .null).returning
      exact (s.extends_add _ _).of_within (Nat.le_refl _) (hbody _ o t h)
    | builtin b => exact steady_extends.ofExcept _
    | integer _ | boolean _ | string _ | null | error _ _ => exact steady_extends.fail _

end

theorem evalBlock_within (n : Nat) (σ : ScopeId) (ss : List Stmt) :
    Moves (Store.Within σ) (evalBlock n σ ss) :=
  (steady_within σ).inOrder (evalStmt_within n σ) ss .null

/-- A program changes bindings only in the scope it runs in. -/
theorem Program.evaluate_within {p : Program} {n : Nat} {σ : ScopeId} {s t : Store} {v : Value}
    (h : p.evaluate n σ s = some (v, t)) : s.Within σ t := by
  rw [p.evaluate_eq_evalBlock] at h
  exact (evalBlock_within n σ p.statements).conclude (steady_within σ)
    (fun u message => (u.extends_newError message).within σ) h

/-- Whenever the evaluation of a program, a block, a statement or an expression in a scope ends,
every scope there was is inside the same scopes as before, every other one has the same bindings,
and what the scope bound is still bound. Whenever a call ends, every scope there was is as it was,
the scope of the caller and that of the closure among them. -/
theorem evaluation_frame (n : Nat) (σ : ScopeId) (s t : Store) :
    (∀ (p : Program) v, p.evaluate n σ s = some (v, t) → s.Within σ t) ∧
    (∀ ss o, evalBlock n σ ss s = some (o, t) → s.Within σ t) ∧
    (∀ st o, evalStmt n σ st s = some (o, t) → s.Within σ t) ∧
    (∀ e o, evalExpr n σ e s = some (o, t) → s.Within σ t) ∧
    ∀ f vs o, apply n f vs s = some (o, t) → s.Extends t := by
  refine ⟨fun p v h => ?_, fun ss o h => ?_, fun st o h => ?_, fun e o h => ?_, fun f vs o h => ?_⟩
  · exact p.evaluate_within h
  · exact evalBlock_within n σ ss s o t h
  · exact evalStmt_within n σ st s o t h
  · exact evalExpr_within n σ e s o t h
  · exact apply_extends n f vs s o t h

/-- A call binds `y` in its own scope, and the statement around it in the first one. -/
theorem evaluation_frame_call :
    let body : List Stmt := [.binding "y" (.identifier "x"), .leave (.identifier "y")]
    let call : Expr := .call (.function ["x"] body) [.integer 1]
    (∃ v t, (Program.mk [.binding "y" call]).evaluate 9 0 .initial = some (v, t) ∧
      Store.initial.Within 0 t) ∧
    (∃ o t, evalBlock 9 0 [.binding "y" call] .initial = some (o, t) ∧
      Store.initial.Within 0 t) ∧
    (∃ o t, evalStmt 9 0 (.binding "y" call) .initial = some (o, t) ∧
      Store.initial.Within 0 t) ∧
    (∃ o t, evalExpr 9 0 call .initial = some (o, t) ∧ Store.initial.Within 0 t) ∧
    ∃ o t, apply 9 (.function ⟨0, ["x"], body, 0⟩) [.integer 1] .initial = some (o, t) ∧
      Store.initial.Extends t := by
  intro body call
  refine ⟨⟨_, _, rfl, ?_⟩, ⟨_, _, rfl, ?_⟩, ⟨_, _, rfl, ?_⟩, ⟨_, _, rfl, ?_⟩, ⟨_, _, rfl, ?_⟩⟩
  · exact (evaluation_frame 9 0 .initial _).1 ⟨[.binding "y" call]⟩ _ rfl
  · exact (evaluation_frame 9 0 .initial _).2.1 [.binding "y" call] _ rfl
  · exact (evaluation_frame 9 0 .initial _).2.2.1 (.binding "y" call) _ rfl
  · exact (evaluation_frame 9 0 .initial _).2.2.2.1 call _ rfl
  · exact (evaluation_frame 9 0 .initial _).2.2.2.2 (.function ⟨0, ["x"], body, 0⟩) [.integer 1] _
      rfl

end MonkeyLang
