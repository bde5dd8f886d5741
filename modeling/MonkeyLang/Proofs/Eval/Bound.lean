import MonkeyLang.Eval.Basic

/-!
# The bound on nesting does not matter

An evaluation that ends within a bound on its depth ends in the same way within every larger one.
`Evaluation.Below m m'` says that `m'` ends wherever `m` does, and as `m` does; it passes through
evaluations in sequence, so a larger bound is above a smaller one (`apply_below`).
-/

namespace MonkeyLang

namespace Evaluation

/-- Where `m` ends, `m'` ends in the same way. -/
def Below {α : Type} (m m' : Evaluation α) : Prop := ∀ s r, m s = some r → m' s = some r

variable {α β : Type} {m m' : Evaluation α}

theorem Below.refl (m : Evaluation α) : m.Below m := fun _ _ h => h

theorem Below.trans {m'' : Evaluation α} (h : m.Below m') (h' : m'.Below m'') : m.Below m'' :=
  fun s r hm => h' s r (h s r hm)

theorem below_endless (m : Evaluation α) : endless.Below m := fun _ _ h => nomatch h

theorem Below.bind {f f' : α → Evaluation β} (hm : m.Below m') (hf : ∀ a, (f a).Below (f' a)) :
    (m >>= f).Below (m' >>= f') := by
  intro s r h
  rcases hrun : m s with _ | ⟨a | v | fault, t⟩
  · rw [bind_of_none hrun] at h
    cases h
  · rw [bind_of_result hrun] at h
    rw [bind_of_result (hm s _ hrun)]
    exact hf a t r h
  · rw [bind_of_left hrun] at h
    rw [bind_of_left (hm s _ hrun), h]
  · rw [bind_of_faulted hrun] at h
    rw [bind_of_faulted (hm s _ hrun), h]

theorem Below.returning {m m' : Evaluation Value} (hm : m.Below m') :
    (returning m).Below (returning m') := by
  intro s r h
  unfold Evaluation.returning at h ⊢
  rcases hrun : m s with _ | p
  · rw [hrun] at h
    cases h
  · rw [hm s p hrun]
    rwa [hrun] at h

theorem Below.inOrder {run run' : Stmt → Evaluation Value} (h : ∀ st, (run st).Below (run' st))
    (last : Value) (ss : List Stmt) : (inOrder run last ss).Below (inOrder run' last ss) := by
  induction ss generalizing last with
  | nil => exact .refl _
  | cons st ss ih => exact (h st).bind fun v => ih v

theorem Below.each {run run' : Expr → Evaluation Value} (h : ∀ e, (run e).Below (run' e))
    (es : List Expr) : (each run es).Below (each run' es) := by
  induction es with
  | nil => exact .refl _
  | cons e es ih => exact (h e).bind fun v => ih.bind fun vs => .refl _

end Evaluation

open Evaluation

mutual

theorem evalExpr_below_succ : ∀ n σ e, (evalExpr n σ e).Below (evalExpr (n + 1) σ e)
  | 0, _, _ => below_endless _
  | n + 1, σ, e => by
    have hblock := Below.inOrder (evalStmt_below_succ n σ) .null
    cases e with
    | identifier _ | integer _ | string _ | boolean _ | function _ _ => exact .refl _
    | unary o a => exact (evalExpr_below_succ n σ a).bind fun v => .refl _
    | binary o a b =>
      exact (evalExpr_below_succ n σ a).bind fun v => (evalExpr_below_succ n σ b).bind fun w =>
        .refl _
    | conditional c a b =>
      refine (evalExpr_below_succ n σ c).bind fun v => ?_
      split
      · exact hblock a
      · exact hblock (b.getD [])
    | call f as =>
      exact (evalExpr_below_succ n σ f).bind fun v =>
        (Below.each (evalExpr_below_succ n σ) as).bind fun vs => apply_below_succ n v vs

theorem evalStmt_below_succ : ∀ n σ st, (evalStmt n σ st).Below (evalStmt (n + 1) σ st)
  | 0, _, _ => below_endless _
  | n + 1, σ, st => by
    cases st with
    | binding x e => exact (evalExpr_below_succ n σ e).bind fun v => .refl _
    | leave e => exact (evalExpr_below_succ n σ e).bind fun v => .refl _
    | expression e => exact evalExpr_below_succ n σ e
    | block ss => exact Below.inOrder (evalStmt_below_succ n σ) .null ss

theorem apply_below_succ : ∀ n f vs, (apply n f vs).Below (apply (n + 1) f vs)
  | 0, _, _ => below_endless _
  | n + 1, f, vs => by
    cases f with
    | function f =>
      exact (Below.refl (enter f vs)).bind fun σ =>
        (Below.inOrder (evalStmt_below_succ n σ) .null f.body).returning
    | builtin _ | integer _ | boolean _ | string _ | null | error _ _ => exact .refl _

end

/-- A call that ends within a bound ends in the same way within a larger one. -/
theorem apply_below {m n : Nat} (h : m ≤ n) (f : Value) (vs : List Value) :
    (apply m f vs).Below (apply n f vs) := by
  induction h with
  | refl => exact .refl _
  | step _ ih => exact ih.trans (apply_below_succ _ f vs)

end MonkeyLang
