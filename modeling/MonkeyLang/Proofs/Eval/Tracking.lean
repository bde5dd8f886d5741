import Mathlib.Order.Basic
import MonkeyLang.Eval.Interpret

/-!
# What is kept track of along an evaluation

What is true of a store may depend on what has happened up to then, which the store does not say: on
the objects that have been made, for one. A `Tracking` has worlds for what is known, which only
grows, and says what a store, a value in it and a scope in it have to be like in a world, such that
whatever a single step does leads to such a store in a world as large: binding a value, making a
closure, entering a call. Then so does every evaluation, and every value that comes of one is as the
world asks for that is reached then (`Tracking.keeps_expr`, `keeps_stmt`, `keeps_call`).

`Tracking.Keeps T P m w s` says so for a single evaluation `m` from the store `s` in the world `w`,
with the property `P` for its result; it passes through evaluations in sequence.
-/

namespace MonkeyLang

/-- The result has the property `P`, or what an evaluation was left with the property `V`. -/
def Outcome.All {α : Type} (P : α → Prop) (V : Value → Prop) : Outcome α → Prop
  | .result a => P a
  | .left v => V v
  | .faulted _ => True

/-- Values that are what they contain: numbers and strings, and the objects that programs share. -/
inductive Value.IsPlain : Value → Prop
  | integer (n : Int64) : IsPlain (.integer n)
  | boolean (b : Bool) : IsPlain (.boolean b)
  | string (contents : String) : IsPlain (.string contents)
  | null : IsPlain .null
  | builtin (b : Builtin) : IsPlain (.builtin b)

/-- What holds in a world of a store, of the values in it and of the scopes in which programs run,
and is kept by every step, in a world as large. -/
structure Tracking (W : Type) [Preorder W] where
  store : W → Store → Prop
  value : W → Value → Prop
  scope : W → ScopeId → Prop
  value_mono : ∀ {w w' v}, w ≤ w' → value w v → value w' v
  scope_mono : ∀ {w w' σ}, w ≤ w' → scope w σ → scope w' σ
  plain : ∀ w {v}, v.IsPlain → value w v
  bound : ∀ {w s σ x v}, store w s → (s.bindings σ).get? x = some v → value w v
  set : ∀ {w s σ v} x, store w s → scope w σ → value w v →
    ∃ w', w ≤ w' ∧ store w' (s.set σ x v)
  closure : ∀ {w s σ} xs body, store w s → scope w σ →
    ∃ w', w ≤ w' ∧ store w' s.fresh.2 ∧ value w' (.function ⟨s.fresh.1, xs, body, σ⟩)
  enter : ∀ {w s f vs}, store w s → value w (.function f) → (∀ v ∈ vs, value w v) →
    ∃ w', w ≤ w' ∧
      store w' (s.add (Evaluation.bindParameters f.parameters vs) (s.chain f.scope)).2 ∧
      scope w' s.scopes.size

/-! ## What operators and builtins compute -/

theorem UnaryOperator.isPlain_of_apply {operator : UnaryOperator} {v w : Value}
    (h : operator.apply v = .ok w) : w.IsPlain := by
  cases operator <;> cases v <;> cases h <;> constructor

theorem BinaryOperator.isPlain_of_applyIntegers {operator : BinaryOperator} {a b : Int64}
    {w : Value} (h : operator.applyIntegers a b = .ok w) : w.IsPlain := by
  unfold applyIntegers at h
  split at h
  case h_4 => split at h <;> cases h; constructor
  all_goals cases h; constructor

theorem BinaryOperator.isPlain_of_apply {operator : BinaryOperator} {v v' w : Value}
    (h : operator.apply v v' = .ok w) : w.IsPlain := by
  unfold apply at h
  split at h
  · exact isPlain_of_applyIntegers h
  · cases h; constructor
  · cases h; constructor
  · cases h; constructor
  · split at h <;> cases h

theorem Builtin.isPlain_of_call {b : Builtin} {vs : List Value} {w : Value}
    (h : b.call vs = .ok w) : w.IsPlain := by
  unfold call at h
  split at h <;> cases h
  constructor

namespace Tracking

open Evaluation

variable {α β W : Type} [Preorder W] {T : Tracking W} {P : W → α → Prop} {m : Evaluation α} {w : W}
  {s : Store}

/-- From a store as the world asks for, `m` leaves such a store in a world as large, whichever way
it ends, and its result is as `P` asks for there. -/
def Keeps (T : Tracking W) (P : W → α → Prop) (m : Evaluation α) (w : W) (s : Store) : Prop :=
  T.store w s → ∀ o t, m s = some (o, t) →
    ∃ w', w ≤ w' ∧ T.store w' t ∧ o.All (P w') (T.value w')

/-- Values of a list are all as the world asks for. -/
def values (T : Tracking W) (w : W) (vs : List Value) : Prop := ∀ v ∈ vs, T.value w v

/-! ## Evaluations in sequence -/

theorem keeps_endless : T.Keeps P (endless : Evaluation α) w s := by
  intro _ o t h
  cases h

theorem keeps_done {a : α} (ha : P w a) : T.Keeps P (done a) w s := by
  rintro hs _ _ ⟨⟩
  exact ⟨w, le_refl w, hs, ha⟩

theorem keeps_leave {v : Value} (hv : T.value w v) :
    T.Keeps P (leave v : Evaluation α) w s := by
  rintro hs _ _ ⟨⟩
  exact ⟨w, le_refl w, hs, hv⟩

theorem keeps_fail (fault : Fault) : T.Keeps P (fail fault : Evaluation α) w s := by
  rintro hs _ _ ⟨⟩
  exact ⟨w, le_refl w, hs, trivial⟩

theorem keeps_ofExcept {e : Except Fault α} (he : ∀ a, e = .ok a → P w a) :
    T.Keeps P (ofExcept e) w s := by
  cases e with
  | ok a => exact keeps_done (he a rfl)
  | error fault => exact keeps_fail fault

/-- What follows runs in a larger world, with a result as the first evaluation leaves it. -/
theorem Keeps.bind {Q : W → β → Prop} {f : α → Evaluation β} (hm : T.Keeps P m w s)
    (hf : ∀ w' t a, w ≤ w' → P w' a → T.Keeps Q (f a) w' t) : T.Keeps Q (m >>= f) w s := by
  intro hs o t h
  rcases hrun : m s with _ | ⟨a | v | fault, u⟩
  · rw [bind_of_none hrun] at h
    cases h
  · rw [bind_of_result hrun] at h
    obtain ⟨w', hw, hu, ha⟩ := hm hs _ u hrun
    obtain ⟨w'', hw', ht, ho⟩ := hf w' u a hw ha hu o t h
    exact ⟨w'', hw.trans hw', ht, ho⟩
  · rw [bind_of_left hrun] at h
    cases h
    exact hm hs _ _ hrun
  · rw [bind_of_faulted hrun] at h
    cases h
    exact hm hs _ _ hrun

theorem Keeps.returning {m : Evaluation Value} (hm : T.Keeps T.value m w s) :
    T.Keeps T.value (returning m) w s := by
  intro hs o t h
  unfold Evaluation.returning at h
  split at h
  · next v u hrun =>
    cases h
    exact hm hs (.left v) _ hrun
  · exact hm hs o t h

theorem keeps_inOrder {run : Stmt → Evaluation Value}
    (hrun : ∀ w' t st, w ≤ w' → T.Keeps T.value (run st) w' t) {last : Value}
    (hl : T.value w last) (ss : List Stmt) : T.Keeps T.value (inOrder run last ss) w s := by
  induction ss generalizing last w s with
  | nil => exact keeps_done hl
  | cons st ss ih =>
    exact (hrun w s st (le_refl w)).bind fun w' t v hw hv =>
      ih (fun w'' u st' hw' => hrun w'' u st' (hw.trans hw')) hv

theorem keeps_each {run : Expr → Evaluation Value}
    (hrun : ∀ w' t e, w ≤ w' → T.Keeps T.value (run e) w' t) (es : List Expr) :
    T.Keeps T.values (each run es) w s := by
  induction es generalizing w s with
  | nil => exact keeps_done fun v hv => nomatch hv
  | cons e es ih =>
    refine (hrun w s e (le_refl w)).bind fun w' t v hw hv =>
      (ih fun w'' u e' hw' => hrun w'' u e' (hw.trans hw')).bind fun w'' u vs hw' hvs =>
        keeps_done ?_
    exact List.forall_mem_cons.2 ⟨T.value_mono hw' hv, hvs⟩

/-! ## Single steps -/

theorem keeps_lookup (σ : ScopeId) (x : String) : T.Keeps T.value (lookup σ x) w s := by
  intro hs o t h
  unfold lookup at h
  split at h
  · next v hv =>
    cases h
    obtain ⟨τ, -, hτ⟩ := List.exists_of_findSome?_eq_some hv
    exact ⟨w, le_refl w, hs, T.bound hs hτ⟩
  · split at h
    · cases h
      exact ⟨w, le_refl w, hs, T.plain w (.builtin _)⟩
    · cases h
      exact ⟨w, le_refl w, hs, trivial⟩

theorem keeps_define {σ : ScopeId} (x : String) {v : Value} (hσ : T.scope w σ)
    (hv : T.value w v) : T.Keeps (fun _ _ => True) (define σ x v) w s := by
  rintro hs _ _ ⟨⟩
  obtain ⟨w', hw, hset⟩ := T.set x hs hσ hv
  exact ⟨w', hw, hset, trivial⟩

theorem keeps_closure {σ : ScopeId} (hσ : T.scope w σ) (xs : List String) (body : List Stmt) :
    T.Keeps T.value (Evaluation.closure σ xs body) w s := by
  rintro hs _ _ ⟨⟩
  exact T.closure xs body hs hσ

theorem keeps_enter {f : Closure} {vs : List Value} (hf : T.value w (.function f))
    (hvs : T.values w vs) : T.Keeps T.scope (Evaluation.enter f vs) w s := by
  rintro hs _ _ ⟨⟩
  exact T.enter hs hf hvs

/-! ## The evaluation of programs -/

mutual

/-- What is kept track of along the evaluation of an expression. -/
theorem keeps_expr : ∀ n {w s σ} e, T.scope w σ → T.Keeps T.value (evalExpr n σ e) w s
  | 0, _, _, _, _, _ => keeps_endless
  | n + 1, w, s, σ, e, hσ => by
    have hexpr : ∀ e w' t, w ≤ w' → T.Keeps T.value (evalExpr n σ e) w' t := fun e w' t hw =>
      keeps_expr n e (T.scope_mono hw hσ)
    have hblock : ∀ ss w' t, w ≤ w' → T.Keeps T.value (inOrder (evalStmt n σ) .null ss) w' t :=
      fun ss w' t hw => keeps_inOrder (fun w'' u st hw' =>
        keeps_stmt n st (T.scope_mono (hw.trans hw') hσ)) (T.plain w' .null) ss
    cases e with
    | identifier x => exact keeps_lookup σ x
    | integer n => exact keeps_done (T.plain w (.integer n))
    | string text => exact keeps_done (T.plain w (.string text))
    | boolean b => exact keeps_done (T.plain w (.boolean b))
    | unary o a =>
      exact (hexpr a w s (le_refl w)).bind fun w' t v _ _ => keeps_ofExcept fun r hr =>
        T.plain w' (o.isPlain_of_apply hr)
    | binary o a b =>
      exact (hexpr a w s (le_refl w)).bind fun w' t v hw _ => (hexpr b w' t hw).bind
        fun w'' u v' _ _ => keeps_ofExcept fun r hr => T.plain w'' (o.isPlain_of_apply hr)
    | conditional c a b =>
      refine (hexpr c w s (le_refl w)).bind fun w' t v hw _ => ?_
      split
      · exact hblock a w' t hw
      · exact hblock (b.getD []) w' t hw
    | function xs body => exact keeps_closure hσ xs body
    | call f as =>
      refine (hexpr f w s (le_refl w)).bind fun w' t v hw hv => ?_
      refine (keeps_each (fun w'' u e hw' => hexpr e w'' u (hw.trans hw')) as).bind
        fun w'' u vs hw' hvs => ?_
      exact keeps_call n (T.value_mono hw' hv) hvs

/-- What is kept track of along a statement. -/
theorem keeps_stmt : ∀ n {w s σ} st, T.scope w σ → T.Keeps T.value (evalStmt n σ st) w s
  | 0, _, _, _, _, _ => keeps_endless
  | n + 1, w, s, σ, st, hσ => by
    cases st with
    | binding x e =>
      refine (keeps_expr n e hσ).bind fun w' t v hw hv => ?_
      exact (keeps_define x (T.scope_mono hw hσ) hv).bind fun w'' u _ _ _ =>
        keeps_done (T.plain w'' .null)
    | leave e => exact (keeps_expr n e hσ).bind fun w' t v _ hv => keeps_leave hv
    | expression e => exact keeps_expr n e hσ
    | block ss =>
      exact keeps_inOrder (fun w' t st hw => keeps_stmt n st (T.scope_mono hw hσ))
        (T.plain w .null) ss

/-- What is kept track of along a call. -/
theorem keeps_call :
    ∀ n {w s f vs}, T.value w f → T.values w vs → T.Keeps T.value (apply n f vs) w s
  | 0, _, _, _, _, _, _ => keeps_endless
  | n + 1, w, s, f, vs, hf, hvs => by
    cases f with
    | function f =>
      refine (keeps_enter hf hvs).bind fun w' t σ _ hσ => Keeps.returning ?_
      exact keeps_inOrder (fun w'' u st hw => keeps_stmt n st (T.scope_mono hw hσ))
        (T.plain w' .null) f.body
    | builtin b => exact keeps_ofExcept fun r hr => T.plain w (b.content.isPlain_of_call hr)
    | integer _ | boolean _ | string _ | null | error _ _ => exact keeps_fail _

end

/-- What is kept track of along statements in a row. -/
theorem keeps_block (n : Nat) {σ : ScopeId} (hσ : T.scope w σ) (ss : List Stmt) :
    T.Keeps T.value (evalBlock n σ ss) w s :=
  keeps_inOrder (fun _ _ st hw => keeps_stmt n st (T.scope_mono hw hσ)) (T.plain w .null) ss

/-- The error value that a fault becomes at the outermost level takes an identity, and that is all
it changes. -/
theorem Keeps.conclude {m : Evaluation Value} (hm : T.Keeps T.value m w s) (hs : T.store w s)
    (hfresh : ∀ w' t, T.store w' t → ∃ w'', w' ≤ w'' ∧ T.store w'' t.fresh.2) {v : Value}
    {u : Store} (h : m.conclude s = some (v, u)) : ∃ w', w ≤ w' ∧ T.store w' u := by
  unfold Evaluation.conclude at h
  split at h
  · cases h
  · next hrun =>
    cases h
    obtain ⟨w', hw, hu, -⟩ := hm hs _ _ hrun
    exact ⟨w', hw, hu⟩
  · next hrun =>
    cases h
    obtain ⟨w', hw, hu, -⟩ := hm hs _ _ hrun
    exact ⟨w', hw, hu⟩
  · next t hrun =>
    cases h
    obtain ⟨w', hw, ht, -⟩ := hm hs _ t hrun
    obtain ⟨w'', hw', hu⟩ := hfresh w' t ht
    exact ⟨w'', hw.trans hw', hu⟩

end Tracking

end MonkeyLang
