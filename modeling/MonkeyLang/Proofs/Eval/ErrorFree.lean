import MonkeyLang.Proofs.Eval.Course

/-!
# Errors are no values of the language

A fault becomes an error value only when an evaluation is concluded, outside of the language. From a
store in which no scope binds an error value none is ever bound, at whatever point of whatever
evaluation, and none is the result of one or what it is left with. So an error value at the end
means that there was a fault, and carries its message (`errors_never_leak`).
-/

namespace MonkeyLang

/-- No scope binds an error value. -/
def Store.ErrorFree (s : Store) : Prop :=
  ∀ σ x v, (s.bindings σ).get? x = some v → v.isError = false

/-- The task is no call of an error value or with one. -/
def Task.ErrorFree : Task → Prop
  | .call f vs => f.isError = false ∧ ∀ v ∈ vs, v.isError = false
  | _ => True

/-- Neither a result nor what an evaluation is left with is an error value. -/
def Outcome.ErrorFree (o : Outcome Value) : Prop :=
  o.All (fun v => v.isError = false) fun v => v.isError = false

theorem Store.initial_errorFree : Store.initial.ErrorFree := by
  intro σ x v h
  cases σ with
  | zero => cases h
  | succ σ => cases h

/-- That there is no error value is an invariant. -/
def errorFree : Invariant where
  store := Store.ErrorFree
  value _ v := v.isError = false
  scope _ _ := True
  value_of_grows _ h := h
  scope_of_grows _ h := h
  plain _ v h := by
    cases h <;> rfl
  bound hs h := hs _ _ _ h
  set hs _ hv τ y w h := by
    rcases Store.bound_of_set h with rfl | h
    · exact hv
    · exact hs τ y w h
  closure _ _ hs _ := ⟨hs, rfl⟩
  enter hs _ hvs := by
    refine ⟨fun τ y w h => ?_, trivial⟩
    rcases Store.bound_of_add h with h | h
    · exact hvs w (Evaluation.mem_of_bindParameters h)
    · exact hs τ y w h

theorem Task.ErrorFree.task {a : Task} (h : a.ErrorFree) (s : Store) : errorFree.task s a := by
  cases a with
  | call f vs => exact h
  | expr σ e | stmt σ st | block σ ss => trivial

theorem errorFree_run {s t : Store} {a : Task} {n : Nat} {o : Outcome Value} (hs : s.ErrorFree)
    (ha : errorFree.task s a) (h : a.run n s = some (o, t)) : t.ErrorFree ∧ o.ErrorFree := by
  obtain ⟨ht, -, ho⟩ := Invariant.keeps_run n ha hs o t h
  exact ⟨ht, ho⟩

/-! ## At the outermost level -/

/-- Where evaluation comes to no error value, what is concluded is one exactly if there was a
fault. -/
theorem conclude_error_iff {m : Evaluation Value} {s : Store}
    (hm : ∀ o t, m s = some (o, t) → o.ErrorFree) (i : Identity) (message : String) (u : Store) :
    m.conclude s = some (.error i message, u) ↔
      ∃ fault t, m s = some (.faulted fault, t) ∧
        t.newError fault.message = (.error i message, u) := by
  constructor
  · intro h
    unfold Evaluation.conclude at h
    split at h
    · cases h
    · next hrun =>
      cases h
      cases hm _ _ hrun
    · next hrun =>
      cases h
      cases hm _ _ hrun
    · next fault t hrun => exact ⟨fault, t, hrun, Option.some.inj h⟩
  · rintro ⟨fault, t, hrun, h⟩
    simp only [Evaluation.conclude, hrun, h]

/-- Programs lead to stores without error values from one without. -/
theorem Store.ErrorFree.leads {s t : Store} (hs : s.ErrorFree) (h : s.Leads t) : t.ErrorFree := by
  have hfresh : ∀ w u, errorFree.tracking.store w u →
      ∃ w', w ≤ w' ∧ errorFree.tracking.store w' u.fresh.2 := by
    rintro w _ ⟨rfl, hu⟩
    exact ⟨_, Store.grows_fresh _, rfl, hu⟩
  obtain ⟨_, -, rfl, ht⟩ := Tracking.leads (fun _ _ => trivial) hfresh ⟨rfl, hs⟩ h
  exact ht

/-- Let programs have led from a store in which no scope binds an error value to a store `s`. No
scope of `s` binds one. At every point of every evaluation from there no scope binds one, no call is
made of one or with one, and whatever ends at that point ends without one. And what a program or an
expression comes to is an error value exactly if there was a fault, with the message of the
fault. -/
theorem errors_never_leak {s₀ s : Store} (h₀ : s₀.ErrorFree) (hs : s₀.Leads s) :
    s.ErrorFree ∧
    (∀ a b t, a.ErrorFree → Reached (a, s) (b, t) →
      t.ErrorFree ∧ b.ErrorFree ∧
        ∀ n o u, b.run n t = some (o, u) → u.ErrorFree ∧ o.ErrorFree) ∧
    (∀ n σ (p : Program) i message u,
      p.evaluate n σ s = some (.error i message, u) ↔
        ∃ fault t, evalBlock n σ p.statements s = some (.faulted fault, t) ∧
          t.newError fault.message = (.error i message, u)) ∧
    ∀ n σ (e : Expr) i message u,
      e.evaluate n σ s = some (.error i message, u) ↔
        ∃ fault t, evalExpr n σ e s = some (.faulted fault, t) ∧
          t.newError fault.message = (.error i message, u) := by
  have hfree := h₀.leads hs
  refine ⟨hfree, fun a b t ha hreach => ?_, fun n σ p => ?_, fun n σ e => ?_⟩
  · obtain ⟨ht, hb⟩ := Invariant.reached hreach hfree (ha.task s)
    refine ⟨ht, ?_, fun n o u h => errorFree_run ht hb h⟩
    cases b with
    | call f vs => exact hb
    | expr σ e | stmt σ st | block σ ss => trivial
  · rw [p.evaluate_eq_evalBlock]
    exact conclude_error_iff fun o t h =>
      (errorFree_run (a := .block σ p.statements) hfree trivial h).2
  · exact conclude_error_iff fun o t h => (errorFree_run (a := .expr σ e) hfree trivial h).2

/-- A function is bound, and in a call of it there is the point at which its body starts, where an
operator does not apply. -/
theorem errors_never_leak_call :
    let body : List Stmt := [.expression (.unary .negate (.identifier "x"))]
    let f : Value := .function ⟨0, ["x"], body, 0⟩
    let s : Store := Store.initial.fresh.2.set 0 "f" f
    let call : Expr := .call (.identifier "f") [.boolean true]
    Store.initial.ErrorFree ∧ Store.initial.Leads s ∧
      ∃ t u i, Reached (.expr 0 call, s) (.block 1 body, t) ∧ t.ErrorFree ∧
        call.evaluate 9 0 s = some (.error i "unknown operator: -BOOLEAN", u) ∧
        ∃ fault t, evalExpr 9 0 call s = some (.faulted fault, t) ∧
          t.newError fault.message = (.error i "unknown operator: -BOOLEAN", u) := by
  intro body f s call
  have hleads : Store.initial.Leads s :=
    .program (p := ⟨[.binding "f" (.function ["x"] body)]⟩) (n := 9) (σ := 0) .refl rfl
  have hcall : Starts (.expr 0 call, s) (.call f [.boolean true], s) := .call (n := 9) ⟨9, rfl⟩ rfl
  have hreach : Reached (.expr 0 call, s) (.block 1 body, _) := .tail (.single hcall) (.body rfl)
  obtain ⟨-, hpoint, -, hevaluate⟩ := errors_never_leak Store.initial_errorFree hleads
  have hfree := (hpoint (.expr 0 call) _ _ trivial hreach).1
  refine ⟨Store.initial_errorFree, hleads, _, _, _, hreach, hfree, rfl, ?_⟩
  exact (hevaluate 9 0 call _ _ _).1 rfl

end MonkeyLang
