import MonkeyLang.Eval.Basic

/-!
# Statements and expressions in a row

A row of statements, or of expressions, may be cut anywhere. What the second part does depends on
the first by the store alone; with statements also by the value of the last one, if there is none in
the second part.
-/

namespace MonkeyLang.Evaluation

theorem inOrder_append (run : Stmt → Evaluation Value) (last : Value) (a b : List Stmt) :
    inOrder run last (a ++ b) = inOrder run last a >>= fun v => inOrder run v b := by
  induction a generalizing last with
  | nil => rfl
  | cons st a ih =>
    have hcons : ∀ ss, inOrder run last (st :: ss) = run st >>= fun v => inOrder run v ss :=
      fun _ => rfl
    rw [List.cons_append, hcons, hcons, bind_assoc]
    exact bind_congr fun v => ih v

/-- The value to start from does not matter if there is a statement. -/
theorem inOrder_of_ne_nil (run : Stmt → Evaluation Value) (v w : Value) {ss : List Stmt}
    (h : ss ≠ []) : inOrder run v ss = inOrder run w ss := by
  cases ss with
  | nil => exact absurd rfl h
  | cons st ss => rfl

theorem each_append (run : Expr → Evaluation Value) (a b : List Expr) :
    each run (a ++ b) = each run a >>= fun vs => each run b >>= fun ws => pure (vs ++ ws) := by
  induction a with
  | nil =>
    show each run b = each run b >>= fun ws => pure ws
    rw [bind_pure]
  | cons e a ih =>
    have hcons : ∀ es, each run (e :: es) =
        run e >>= fun v => each run es >>= fun vs => pure (v :: vs) := fun _ => rfl
    rw [List.cons_append, hcons, hcons, ih]
    simp only [bind_assoc, pure_bind, List.cons_append]

end MonkeyLang.Evaluation
