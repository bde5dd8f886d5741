import MonkeyLang.Scope.Store

/-!
# What becomes of the scopes of a store

Relations between a store and a later one. `Store.Grows` says that nothing has been taken away, and
`Store.Extends` that no scope has changed; there may be more of them. `Store.Within σ` allows for
one change: in the scope `σ` names may have been bound, anew or again. All are kept up from one step
to the next, and each operation of a store is related to one of them.
-/

namespace MonkeyLang.Store

variable {s t u : Store} {σ τ : ScopeId}

/-! ## Scopes after an operation -/

theorem scope_of_size_le (h : s.scopes.size ≤ σ) : s.scope σ = ⟨.empty, []⟩ := by
  rw [scope, Array.getD_eq_getD_getElem?, Array.getElem?_eq_none h]
  rfl

theorem scope_ext (hb : s.bindings σ = t.bindings σ)
    (he : (s.scope σ).enclosing = (t.scope σ).enclosing) : s.scope σ = t.scope σ := by
  cases hs : s.scope σ
  cases ht : t.scope σ
  rw [bindings, bindings, hs, ht] at hb
  rw [hs, ht] at he
  rw [Scope.mk.injEq]
  exact ⟨hb, he⟩

theorem size_set (s : Store) (σ : ScopeId) (x : String) (v : Value) :
    (s.set σ x v).scopes.size = s.scopes.size := Array.size_modify

theorem scope_set_of_ne (x : String) (v : Value) (h : τ ≠ σ) :
    (s.set σ x v).scope τ = s.scope τ := by
  simp [scope, set, Array.getElem?_modify, Ne.symm h]

theorem scope_set_self (x : String) (v : Value) (h : σ < s.scopes.size) :
    (s.set σ x v).scope σ = { s.scope σ with bindings := (s.bindings σ).insert x v } := by
  simp [bindings, scope, set, h, Array.getElem_modify_self]

/-- Nothing is bound in a scope that there is not. -/
theorem set_of_size_le (x : String) (v : Value) (h : s.scopes.size ≤ σ) : s.set σ x v = s := by
  have hsame : (s.scopes.modify σ fun scope =>
      { scope with bindings := scope.bindings.insert x v }) = s.scopes := by
    refine Array.ext Array.size_modify fun i _ hi => ?_
    rw [Array.getElem_modify, if_neg (by omega)]
  rw [set, hsame]

/-- Binding a name leaves all scopes where they are. -/
theorem enclosing_set (s : Store) (σ : ScopeId) (x : String) (v : Value) (τ : ScopeId) :
    ((s.set σ x v).scope τ).enclosing = (s.scope τ).enclosing := by
  by_cases hσ : σ < s.scopes.size
  · by_cases hτ : τ = σ
    · rw [hτ, scope_set_self x v hσ]
    · rw [scope_set_of_ne x v hτ]
  · rw [set_of_size_le x v (Nat.not_lt.1 hσ)]

theorem size_add (s : Store) (b : Bindings Value) (e : List ScopeId) :
    (s.add b e).2.scopes.size = s.scopes.size + 1 := Array.size_push _

theorem scope_add_of_ne (b : Bindings Value) (e : List ScopeId) (h : σ ≠ s.scopes.size) :
    (s.add b e).2.scope σ = s.scope σ := by
  simp [scope, add, Array.getElem?_push, h]

/-! ## Bound values after an operation -/

/-- What is bound after a name has been bound: the name to its value, or what was bound before. -/
theorem name_bound_of_set {x y : String} {v w : Value}
    (h : ((s.set σ x v).bindings τ).get? y = some w) :
    (y = x ∧ w = v) ∨ (s.bindings τ).get? y = some w := by
  by_cases hσ : σ < s.scopes.size
  · by_cases hτ : τ = σ
    · subst hτ
      rw [bindings, scope_set_self x v hσ, Bindings.get?_insert] at h
      split at h
      · next hy => exact .inl ⟨hy, (Option.some.inj h).symm⟩
      · exact .inr h
    · rw [bindings, scope_set_of_ne x v hτ] at h
      exact .inr h
  · rw [set_of_size_le x v (Nat.not_lt.1 hσ)] at h
    exact .inr h

/-- The values that are bound then: the new one, or those that were bound before. -/
theorem bound_of_set {x y : String} {v w : Value}
    (h : ((s.set σ x v).bindings τ).get? y = some w) :
    w = v ∨ (s.bindings τ).get? y = some w := (name_bound_of_set h).imp_left And.right

theorem get?_bindings_set (h : σ < s.scopes.size) (x y : String) (v : Value) :
    ((s.set σ x v).bindings τ).get? y =
      if τ = σ ∧ y = x then some v else (s.bindings τ).get? y := by
  by_cases hτ : τ = σ
  · subst hτ
    simp only [bindings, scope_set_self x v h, Bindings.get?_insert, true_and]
  · simp only [bindings, scope_set_of_ne x v hτ, hτ, false_and, if_false]

theorem scope_add_self (s : Store) (b : Bindings Value) (e : List ScopeId) :
    (s.add b e).2.scope s.scopes.size = ⟨b, e⟩ := by
  simp [scope, add]

/-- What is bound after a scope has been made: what it binds, or what was bound before. -/
theorem bound_of_add {b : Bindings Value} {e : List ScopeId} {y : String} {w : Value}
    (h : ((s.add b e).2.bindings τ).get? y = some w) :
    b.get? y = some w ∨ (s.bindings τ).get? y = some w := by
  by_cases hτ : τ = s.scopes.size
  · subst hτ
    rw [bindings, scope_add_self] at h
    exact .inl h
  · rw [bindings, scope_add_of_ne b e hτ] at h
    exact .inr h

/-! ## Growth -/

/-- In `t` there are no fewer scopes than in `s`, and no fewer identities have been dealt out. -/
structure Grows (s t : Store) : Prop where
  size_le : s.scopes.size ≤ t.scopes.size
  identity_le : s.nextIdentity ≤ t.nextIdentity

theorem Grows.refl (s : Store) : s.Grows s := ⟨Nat.le_refl _, Nat.le_refl _⟩

theorem Grows.trans (h : s.Grows t) (h' : t.Grows u) : s.Grows u :=
  ⟨Nat.le_trans h.size_le h'.size_le, Nat.le_trans h.identity_le h'.identity_le⟩

theorem grows_set (s : Store) (σ : ScopeId) (x : String) (v : Value) : s.Grows (s.set σ x v) :=
  ⟨Nat.le_of_eq (size_set s σ x v).symm, Nat.le_refl _⟩

theorem grows_add (s : Store) (b : Bindings Value) (e : List ScopeId) : s.Grows (s.add b e).2 :=
  ⟨by rw [size_add]; exact Nat.le_succ _, Nat.le_refl _⟩

theorem grows_fresh (s : Store) : s.Grows s.fresh.2 := ⟨Nat.le_refl _, Nat.le_succ _⟩

/-! ## Extension -/

/-- All scopes of `s` are in `t`, as they were. -/
structure Extends (s t : Store) : Prop where
  size_le : s.scopes.size ≤ t.scopes.size
  scope_eq : ∀ τ < s.scopes.size, t.scope τ = s.scope τ

theorem Extends.refl (s : Store) : s.Extends s := ⟨Nat.le_refl _, fun _ _ => rfl⟩

theorem Extends.trans (h : s.Extends t) (h' : t.Extends u) : s.Extends u := by
  refine ⟨Nat.le_trans h.size_le h'.size_le, fun τ hτ => ?_⟩
  rw [h'.scope_eq τ (Nat.lt_of_lt_of_le hτ h.size_le), h.scope_eq τ hτ]

theorem extends_fresh (s : Store) : s.Extends s.fresh.2 := ⟨Nat.le_refl _, fun _ _ => rfl⟩

theorem extends_newError (s : Store) (message : String) : s.Extends (s.newError message).2 :=
  s.extends_fresh

theorem extends_add (s : Store) (b : Bindings Value) (e : List ScopeId) :
    s.Extends (s.add b e).2 := by
  refine ⟨?_, fun τ hτ => scope_add_of_ne b e (Nat.ne_of_lt hτ)⟩
  rw [size_add]
  exact Nat.le_succ _

/-! ## Changes within one scope -/

/-- All scopes of `s` are in `t`, inside the same scopes as before, and with the same bindings but
for `σ`, in which every name that was bound still is. -/
structure Within (σ : ScopeId) (s t : Store) : Prop where
  size_le : s.scopes.size ≤ t.scopes.size
  enclosing_eq : ∀ τ < s.scopes.size, (t.scope τ).enclosing = (s.scope τ).enclosing
  bindings_eq : ∀ τ < s.scopes.size, τ ≠ σ → t.bindings τ = s.bindings τ
  bound : ∀ x, (s.bindings σ).contains x = true → (t.bindings σ).contains x = true

theorem Within.trans (h : s.Within σ t) (h' : t.Within σ u) : s.Within σ u where
  size_le := Nat.le_trans h.size_le h'.size_le
  enclosing_eq τ hτ := by
    rw [h'.enclosing_eq τ (Nat.lt_of_lt_of_le hτ h.size_le), h.enclosing_eq τ hτ]
  bindings_eq τ hτ hne := by
    rw [h'.bindings_eq τ (Nat.lt_of_lt_of_le hτ h.size_le) hne, h.bindings_eq τ hτ hne]
  bound x hx := h'.bound x (h.bound x hx)

theorem Extends.within (h : s.Extends t) (σ : ScopeId) : s.Within σ t where
  size_le := h.size_le
  enclosing_eq τ hτ := by rw [h.scope_eq τ hτ]
  bindings_eq τ hτ _ := by rw [bindings, h.scope_eq τ hτ, bindings]
  bound x hx := by
    by_cases hσ : σ < s.scopes.size
    · rwa [bindings, h.scope_eq σ hσ]
    · rw [bindings, scope_of_size_le (Nat.not_lt.1 hσ)] at hx
      cases hx

theorem within_set (s : Store) (σ : ScopeId) (x : String) (v : Value) :
    s.Within σ (s.set σ x v) := by
  by_cases hσ : σ < s.scopes.size
  · refine ⟨Nat.le_of_eq (size_set s σ x v).symm, fun τ _ => enclosing_set s σ x v τ,
      fun τ _ hne => ?_, fun y hy => ?_⟩
    · rw [bindings, scope_set_of_ne x v hne, bindings]
    · rw [bindings, scope_set_self x v hσ, Bindings.contains, Bindings.get?_insert]
      split
      · rfl
      · exact hy
  · rw [set_of_size_le x v (Nat.not_lt.1 hσ)]
    exact (Extends.refl s).within σ

/-- What has changed in a scope that was not there before leaves all scopes as they were. -/
theorem Extends.of_within (h : s.Extends t) (hσ : s.scopes.size ≤ σ) (h' : t.Within σ u) :
    s.Extends u := by
  refine ⟨Nat.le_trans h.size_le h'.size_le, fun τ hτ => ?_⟩
  have hlt : τ < t.scopes.size := Nat.lt_of_lt_of_le hτ h.size_le
  have hne : τ ≠ σ := Nat.ne_of_lt (Nat.lt_of_lt_of_le hτ hσ)
  rw [← h.scope_eq τ hτ]
  exact scope_ext (h'.bindings_eq τ hlt hne) (h'.enclosing_eq τ hlt)

end MonkeyLang.Store
