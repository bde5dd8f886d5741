import MonkeyLang.Proofs.Eval.Tracking
import MonkeyLang.Proofs.Scope.Store

/-!
# Invariants of evaluation

An `Invariant` is a property of stores together with one of the values and one of the scopes in
them, such that whatever a single step does to a store keeps it: binding a value, making a closure,
entering a call. Then every evaluation keeps it, and every value that comes of one has the property
of values (`Invariant.keeps_block`, `keeps_call`). The properties of values and of scopes may depend
on the store they are in, as long as they last while the store grows.

`Invariant.Keeps I P m s` says so for a single evaluation `m` from the store `s`, with the property
`P` for its result. What is kept track of is the store itself (`Invariant.tracking`).
-/

namespace MonkeyLang

/-- What holds of a store, of the values in it and of the scopes in which programs run, and is kept
by every step. -/
structure Invariant where
  store : Store → Prop
  value : Store → Value → Prop
  scope : Store → ScopeId → Prop
  value_of_grows : ∀ {s t v}, s.Grows t → value s v → value t v
  scope_of_grows : ∀ {s t σ}, s.Grows t → scope s σ → scope t σ
  plain : ∀ s {v}, v.IsPlain → value s v
  bound : ∀ {s σ x v}, store s → (s.bindings σ).get? x = some v → value s v
  set : ∀ {s σ x v}, store s → scope s σ → value s v → store (s.set σ x v)
  closure : ∀ {s σ} xs body, store s → scope s σ →
    store s.fresh.2 ∧ value s.fresh.2 (.function ⟨s.fresh.1, xs, body, σ⟩)
  enter : ∀ {s f vs}, store s → value s (.function f) → (∀ v ∈ vs, value s v) →
    store (s.add (Evaluation.bindParameters f.parameters vs) (s.chain f.scope)).2 ∧
      scope (s.add (Evaluation.bindParameters f.parameters vs) (s.chain f.scope)).2 s.scopes.size

/-- What is bound when a scope is entered is a parameter, to the argument that stands in its
place. -/
theorem Evaluation.mem_zip_of_bindParameters {xs : List String} {vs : List Value} {x : String}
    {w : Value} (h : (bindParameters xs vs).get? x = some w) : (x, w) ∈ xs.zip vs := by
  have key : ∀ {pairs : List (String × Value)} {b : Bindings Value},
      (pairs.foldl (fun b pair => b.insert pair.1 pair.2) b).get? x = some w →
        b.get? x = some w ∨ (x, w) ∈ pairs := by
    intro pairs
    induction pairs with
    | nil => exact fun h => .inl h
    | cons pair pairs ih =>
      intro b h
      rcases ih h with h | h
      · rw [Bindings.get?_insert] at h
        split at h
        · next hx => exact .inr (by simp [hx, ← Option.some.inj h])
        · exact .inl h
      · exact .inr (List.mem_cons_of_mem _ h)
  rcases key h with h | h
  · cases h
  · exact h

/-- What a parameter is bound to is one of the arguments. -/
theorem Evaluation.mem_of_bindParameters {xs : List String} {vs : List Value} {x : String}
    {w : Value} (h : (bindParameters xs vs).get? x = some w) : w ∈ vs :=
  (List.of_mem_zip (mem_zip_of_bindParameters h)).2

/-- A store is below those that it grows to. -/
instance : Preorder Store where
  le := Store.Grows
  le_refl := .refl
  le_trans _ _ _ := .trans

namespace Invariant

variable {α : Type} {I : Invariant} {P : Store → α → Prop} {m : Evaluation α} {s t : Store}

/-- From a store with the property, `m` leaves such a store, whichever way it ends, and its result
is as `P` asks for. -/
def Keeps (I : Invariant) (P : Store → α → Prop) (m : Evaluation α) (s : Store) : Prop :=
  I.store s → ∀ o t, m s = some (o, t) → I.store t ∧ s.Grows t ∧ o.All (P t) (I.value t)

/-- Values of a list all have the property of values. -/
def values (I : Invariant) (s : Store) (vs : List Value) : Prop := ∀ v ∈ vs, I.value s v

/-- An invariant is kept track of in the world that the store itself is. -/
def tracking (I : Invariant) : Tracking Store where
  store s t := t = s ∧ I.store s
  value := I.value
  scope := I.scope
  value_mono := I.value_of_grows
  scope_mono := I.scope_of_grows
  plain := I.plain
  bound := by
    rintro s _ σ x v ⟨rfl, hs⟩ hv
    exact I.bound hs hv
  set := by
    rintro s _ σ v x ⟨rfl, hs⟩ hσ hv
    exact ⟨_, Store.grows_set _ σ x v, rfl, I.set hs hσ hv⟩
  closure := by
    rintro s _ σ xs body ⟨rfl, hs⟩ hσ
    obtain ⟨ht, hv⟩ := I.closure xs body hs hσ
    exact ⟨_, Store.grows_fresh _, ⟨rfl, ht⟩, hv⟩
  enter := by
    rintro s _ f vs ⟨rfl, hs⟩ hf hvs
    obtain ⟨ht, hσ⟩ := I.enter hs hf hvs
    exact ⟨_, Store.grows_add _ _ _, ⟨rfl, ht⟩, hσ⟩

theorem Keeps.of_tracking (h : I.tracking.Keeps P m s s) : I.Keeps P m s := by
  intro hs o t hrun
  obtain ⟨_, hgrows, ⟨rfl, ht⟩, ho⟩ := h ⟨rfl, hs⟩ o t hrun
  exact ⟨ht, hgrows, ho⟩

/-- Running statements in a row keeps the invariant. -/
theorem keeps_block (n : Nat) {σ : ScopeId} (hσ : I.scope s σ) (ss : List Stmt) :
    I.Keeps I.value (evalBlock n σ ss) s :=
  .of_tracking (Tracking.keeps_block n hσ ss)

/-- A call keeps the invariant. -/
theorem keeps_call (n : Nat) {f : Value} {vs : List Value} (hf : I.value s f)
    (hvs : I.values s vs) : I.Keeps I.value (apply n f vs) s :=
  .of_tracking (Tracking.keeps_call n hf hvs)

/-- The error value that a fault becomes at the outermost level takes an identity, and that is all
it changes. -/
theorem Keeps.conclude {m : Evaluation Value} (hm : I.Keeps I.value m s) (hs : I.store s)
    (hfresh : ∀ t, I.store t → I.store t.fresh.2) {v : Value} {u : Store}
    (h : m.conclude s = some (v, u)) : I.store u ∧ s.Grows u := by
  have htracking : I.tracking.Keeps I.tracking.value m s s := by
    rintro ⟨-, hs⟩ o t hrun
    obtain ⟨ht, hst, ho⟩ := hm hs o t hrun
    exact ⟨t, hst, ⟨rfl, ht⟩, ho⟩
  obtain ⟨_, hgrows, rfl, hu⟩ := htracking.conclude ⟨rfl, hs⟩ (by
    rintro s' _ ⟨rfl, ht⟩
    exact ⟨_, Store.grows_fresh _, rfl, hfresh _ ht⟩) h
  exact ⟨hu, hgrows⟩

end Invariant

end MonkeyLang
