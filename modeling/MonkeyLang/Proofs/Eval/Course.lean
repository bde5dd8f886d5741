import Mathlib.Logic.Relation
import MonkeyLang.Proofs.Eval.Invariant

/-!
# The course of an evaluation

An evaluation takes its course through others: of operands and branches, of statements, of the
bodies of functions. `Starts` says which task an evaluation may start next and in which store, given
how those in front of it have ended; `Reached` follows such steps down to any depth, in evaluations
that do not end as well. `Store.Leads` goes from one program to the next. What is kept track of is
so at every point of the course and behind every program (`Tracking.reached`, `Tracking.leads`), and
an invariant holds there (`Invariant.reached`).
-/

namespace MonkeyLang

/-- Something to be evaluated: an expression, a statement or statements in a row in a scope, or a
call. -/
inductive Task where
  | expr (σ : ScopeId) (e : Expr)
  | stmt (σ : ScopeId) (st : Stmt)
  | block (σ : ScopeId) (ss : List Stmt)
  | call (f : Value) (vs : List Value)

namespace Task

/-- The evaluation of a task. -/
def run (n : Nat) : Task → Evaluation Value
  | expr σ e => evalExpr n σ e
  | stmt σ st => evalStmt n σ st
  | block σ ss => evalBlock n σ ss
  | call f vs => apply n f vs

/-- The evaluation of a task ends with a result, whatever bound on its depth that takes. -/
def Yields (a : Task) (s : Store) (v : Value) (t : Store) : Prop :=
  ∃ n, a.run n s = some (.result v, t)

end Task

/-- The evaluation of a task from a store starts that of another task in another store. -/
inductive Starts : Task × Store → Task × Store → Prop
  | operand {σ o a s} : Starts (.expr σ (.unary o a), s) (.expr σ a, s)
  | left {σ o a b s} : Starts (.expr σ (.binary o a b), s) (.expr σ a, s)
  | right {σ o a b s v t} : (Task.expr σ a).Yields s v t →
      Starts (.expr σ (.binary o a b), s) (.expr σ b, t)
  | condition {σ c a b s} : Starts (.expr σ (.conditional c a b), s) (.expr σ c, s)
  | consequence {σ c a b s v t} : (Task.expr σ c).Yields s v t → v.isTruthy = true →
      Starts (.expr σ (.conditional c a b), s) (.block σ a, t)
  | alternative {σ c a b s v t} : (Task.expr σ c).Yields s v t → v.isTruthy = false →
      Starts (.expr σ (.conditional c a (some b)), s) (.block σ b, t)
  | callee {σ f as s} : Starts (.expr σ (.call f as), s) (.expr σ f, s)
  | argument {σ f front a back s v t vs u n} : (Task.expr σ f).Yields s v t →
      Evaluation.each (evalExpr n σ) front t = some (.result vs, u) →
      Starts (.expr σ (.call f (front ++ a :: back)), s) (.expr σ a, u)
  | call {σ f as s v t vs u n} : (Task.expr σ f).Yields s v t →
      Evaluation.each (evalExpr n σ) as t = some (.result vs, u) →
      Starts (.expr σ (.call f as), s) (.call v vs, u)
  | binding {σ x e s} : Starts (.stmt σ (.binding x e), s) (.expr σ e, s)
  | leave {σ e s} : Starts (.stmt σ (.leave e), s) (.expr σ e, s)
  | expression {σ e s} : Starts (.stmt σ (.expression e), s) (.expr σ e, s)
  | block {σ ss s} : Starts (.stmt σ (.block ss), s) (.block σ ss, s)
  | statement {σ front st back s v t} : (Task.block σ front).Yields s v t →
      Starts (.block σ (front ++ st :: back), s) (.stmt σ st, t)
  | body {f vs s σ t} : Evaluation.enter f vs s = some (.result σ, t) →
      Starts (.call (.function f) vs, s) (.block σ f.body, t)

/-- Statements in a row start with the first one, in the store as it is. -/
theorem Starts.first {σ : ScopeId} {st : Stmt} {back : List Stmt} {s : Store} :
    Starts (.block σ (st :: back), s) (.stmt σ st, s) :=
  @statement σ [] st back s .null s ⟨0, rfl⟩

/-- The first argument is evaluated right behind the callee. -/
theorem Starts.first_argument {σ : ScopeId} {f a : Expr} {back : List Expr} {s t : Store}
    {v : Value} (hf : (Task.expr σ f).Yields s v t) :
    Starts (.expr σ (.call f (a :: back)), s) (.expr σ a, t) :=
  @argument σ f [] a back s v t [] t 0 hf rfl

/-- The evaluation of the first task from the first store comes to that of the second one. -/
def Reached : Task × Store → Task × Store → Prop := Relation.ReflTransGen Starts

/-- The stores to which programs and expressions lead, evaluated one after the other. -/
inductive Store.Leads (s : Store) : Store → Prop
  | refl : Leads s s
  | program {t u n σ v} {p : Program} : Leads s t → p.evaluate n σ t = some (v, u) → Leads s u
  | expression {t u n σ v} {e : Expr} : Leads s t → e.evaluate n σ t = some (v, u) → Leads s u

namespace Tracking

variable {W : Type} [Preorder W] {T : Tracking W} {w : W} {s t : Store} {a : Task}

/-- A task is to be run in a scope as the world asks for, and called are values as it asks for. -/
def task (T : Tracking W) (w : W) : Task → Prop
  | .expr σ _ | .stmt σ _ | .block σ _ => T.scope w σ
  | .call f vs => T.value w f ∧ T.values w vs

/-- What is kept track of along the evaluation of a task. -/
theorem keeps_run (n : Nat) (ha : T.task w a) : T.Keeps T.value (a.run n) w s := by
  cases a with
  | expr σ e => exact keeps_expr n e ha
  | stmt σ st => exact keeps_stmt n st ha
  | block σ ss => exact keeps_block n ha ss
  | call f vs => exact keeps_call n ha.1 ha.2

theorem of_yields {v : Value} (hs : T.store w s) (ha : T.task w a) (h : a.Yields s v t) :
    ∃ w', w ≤ w' ∧ T.store w' t ∧ T.value w' v := by
  obtain ⟨n, hrun⟩ := h
  exact keeps_run n ha hs _ t hrun

/-- The callee and arguments of a call, evaluated one after the other. -/
theorem of_arguments {σ : ScopeId} {f : Expr} {as : List Expr} {v : Value} {vs : List Value}
    {u : Store} {n : Nat} (hs : T.store w s) (hσ : T.scope w σ) (hf : (Task.expr σ f).Yields s v t)
    (has : Evaluation.each (evalExpr n σ) as t = some (.result vs, u)) :
    ∃ w', w ≤ w' ∧ T.store w' u ∧ T.value w' v ∧ T.values w' vs := by
  obtain ⟨w', hw, ht, hv⟩ := of_yields hs (by exact hσ) hf
  have hargument : ∀ w'' u e, w' ≤ w'' → T.Keeps T.value (evalExpr n σ e) w'' u :=
    fun w'' u e hw' => keeps_expr n e (T.scope_mono (hw.trans hw') hσ)
  obtain ⟨w'', hw', hu, hvs⟩ := keeps_each hargument as ht _ u has
  exact ⟨w'', hw.trans hw', hu, T.value_mono hw' hv, hvs⟩

/-- What is started is started in a store as a larger world asks for. -/
theorem started {p q : Task × Store} (h : Starts p q) (hs : T.store w p.2) (ha : T.task w p.1) :
    ∃ w', w ≤ w' ∧ T.store w' q.2 ∧ T.task w' q.1 := by
  cases h with
  | operand | left | condition | callee | binding | leave | expression | block =>
    exact ⟨w, le_refl w, hs, ha⟩
  | right hv | consequence hv _ | alternative hv _ | statement hv =>
    obtain ⟨w', hw, ht, -⟩ := of_yields hs (by exact ha) hv
    exact ⟨w', hw, ht, T.scope_mono hw ha⟩
  | argument hf has =>
    obtain ⟨w', hw, hu, -⟩ := of_arguments hs ha hf has
    exact ⟨w', hw, hu, T.scope_mono hw ha⟩
  | call hf has =>
    obtain ⟨w', hw, hu, hv, hvs⟩ := of_arguments hs ha hf has
    exact ⟨w', hw, hu, hv, hvs⟩
  | body h => exact keeps_enter ha.1 ha.2 hs _ _ h

/-- What is kept track of from the start is so at every point of the course. -/
theorem reached {p q : Task × Store} (h : Reached p q) (hs : T.store w p.2) (ha : T.task w p.1) :
    ∃ w', w ≤ w' ∧ T.store w' q.2 ∧ T.task w' q.1 := by
  induction h with
  | refl => exact ⟨w, le_refl w, hs, ha⟩
  | tail _ hstep ih =>
    obtain ⟨w', hw, hu, hb⟩ := ih
    obtain ⟨w'', hw', ht, hc⟩ := started hstep hu hb
    exact ⟨w'', hw.trans hw', ht, hc⟩

/-- What is kept track of in all scopes is so wherever programs lead to, if the identity of an error
value may be taken. -/
theorem leads (hscope : ∀ w σ, T.scope w σ)
    (hfresh : ∀ w s, T.store w s → ∃ w', w ≤ w' ∧ T.store w' s.fresh.2) (hs : T.store w s)
    (h : s.Leads t) : ∃ w', w ≤ w' ∧ T.store w' t := by
  have hconclude : ∀ {m : Evaluation Value} {u u' v}, (∃ w', w ≤ w' ∧ T.store w' u) →
      (∀ w', T.Keeps T.value m w' u) → m.conclude u = some (v, u') →
        ∃ w', w ≤ w' ∧ T.store w' u' := by
    rintro m u u' v ⟨w', hw, hu⟩ hm hrun
    obtain ⟨w'', hw', hu'⟩ := (hm w').conclude hu hfresh hrun
    exact ⟨w'', hw.trans hw', hu'⟩
  induction h with
  | refl => exact ⟨w, le_refl w, hs⟩
  | @program u u' n σ v p _ hrun ih =>
    rw [p.evaluate_eq_evalBlock] at hrun
    exact hconclude ih (fun w' => keeps_block n (hscope w' σ) p.statements) hrun
  | @expression u u' n σ v e _ hrun ih =>
    exact hconclude ih (fun w' => keeps_expr n e (hscope w' σ)) hrun

end Tracking

namespace Invariant

variable {I : Invariant} {s : Store} {a : Task}

/-- A task is to be run in a scope with the property of scopes, and called are values with that of
values. -/
def task (I : Invariant) (s : Store) : Task → Prop
  | .expr σ _ | .stmt σ _ | .block σ _ => I.scope s σ
  | .call f vs => I.value s f ∧ I.values s vs

theorem task_tracking (I : Invariant) (s : Store) (a : Task) :
    I.tracking.task s a ↔ I.task s a := by
  cases a <;> rfl

/-- The evaluation of a task keeps the invariant. -/
theorem keeps_run (n : Nat) (ha : I.task s a) : I.Keeps I.value (a.run n) s :=
  .of_tracking (Tracking.keeps_run n ((I.task_tracking s a).2 ha))

/-- An invariant that holds at the start holds at every point of the course. -/
theorem reached {p q : Task × Store} (h : Reached p q) (hs : I.store p.2) (ha : I.task p.2 p.1) :
    I.store q.2 ∧ I.task q.2 q.1 := by
  obtain ⟨t, -, ⟨ht, hstore⟩, htask⟩ :=
    Tracking.reached (T := I.tracking) h ⟨rfl, hs⟩ ((I.task_tracking _ _).2 ha)
  rw [ht]
  exact ⟨hstore, (I.task_tracking _ _).1 htask⟩

end Invariant

end MonkeyLang
