import MonkeyLang.Proofs.Eval.Invariant

/-!
# Valid stores

In a `Store.Valid` nothing leads out of the store: the scopes around a scope are in it, and what is
bound is owned by it, with scopes that are in it and identities that have been dealt out. Stores are
valid from the start, and evaluation leaves them so (`Store.Valid.program`).
-/

namespace MonkeyLang

namespace Store

variable {s t : Store} {v : Value} {σ : ScopeId}

/-- The address is that of an object that is there from the start or has been made. -/
def Deals (s : Store) : Address → Prop
  | .made i => i < s.nextIdentity
  | .null | .boolean _ | .builtin _ => True

/-- The scope that the value has captured is in the store, and where it stands is an object. -/
def Owns (s : Store) : Value → Prop
  | .integer _ | .string _ => True
  | .null a => s.Deals a
  | .boolean b => s.Deals b.address
  | .builtin f => s.Deals f.address
  | .function f => f.identity < s.nextIdentity ∧ f.scope < s.scopes.size
  | .error i _ => i < s.nextIdentity

/-- Nothing leads out of the store. -/
structure Valid (s : Store) : Prop where
  enclosing_lt : ∀ {σ τ}, τ ∈ (s.scope σ).enclosing → τ < s.scopes.size
  owns : ∀ {σ x v}, (s.bindings σ).get? x = some v → s.Owns v

theorem owns_of_isPlain (s : Store) (h : v.IsPlain) : s.Owns v := by
  cases h <;> trivial

theorem Deals.of_grows (hst : s.Grows t) {a : Address} (h : s.Deals a) : t.Deals a := by
  cases a with
  | made i => exact Nat.lt_of_lt_of_le h hst.identity_le
  | null | boolean _ | builtin _ => trivial

theorem Owns.of_grows (hst : s.Grows t) (h : s.Owns v) : t.Owns v := by
  cases v with
  | null | boolean _ | builtin _ => exact Deals.of_grows hst h
  | function f =>
    exact ⟨Nat.lt_of_lt_of_le h.1 hst.identity_le, Nat.lt_of_lt_of_le h.2 hst.size_le⟩
  | error i message => exact Nat.lt_of_lt_of_le h hst.identity_le
  | integer _ | string _ => trivial

theorem initial_valid : Store.initial.Valid where
  enclosing_lt {σ τ} h := by
    cases σ with
    | zero | succ => cases h
  owns {σ x v} h := by
    cases σ with
    | zero | succ => cases h

theorem Valid.fresh (h : s.Valid) : s.fresh.2.Valid :=
  ⟨h.enclosing_lt, fun hv => (h.owns hv).of_grows s.grows_fresh⟩

theorem Valid.set (h : s.Valid) (σ : ScopeId) (x : String) (hv : s.Owns v) :
    (s.set σ x v).Valid where
  enclosing_lt hτ := by
    rw [enclosing_set] at hτ
    rw [size_set]
    exact h.enclosing_lt hτ
  owns {τ y w} hw := by
    refine Owns.of_grows (s.grows_set σ x v) ?_
    rcases bound_of_set hw with rfl | hw
    · exact hv
    · exact h.owns hw

theorem Valid.add (h : s.Valid) {b : Bindings Value} {e : List ScopeId}
    (hb : ∀ {x v}, b.get? x = some v → s.Owns v) (he : ∀ τ ∈ e, τ < s.scopes.size) :
    (s.add b e).2.Valid where
  enclosing_lt {σ τ} hτ := by
    rw [size_add]
    refine Nat.lt_succ_of_lt ?_
    by_cases hσ : σ = s.scopes.size
    · rw [hσ, scope_add_self] at hτ
      exact he τ hτ
    · rw [scope_add_of_ne b e hσ] at hτ
      exact h.enclosing_lt hτ
  owns hw := by
    refine Owns.of_grows (s.grows_add b e) ?_
    rcases bound_of_add hw with hw | hw
    · exact hb hw
    · exact h.owns hw

end Store

/-- That a store is valid and programs run in scopes of it is an invariant. -/
def valid : Invariant where
  store := Store.Valid
  value := Store.Owns
  scope s σ := σ < s.scopes.size
  value_of_grows := .of_grows
  scope_of_grows hst hσ := Nat.lt_of_lt_of_le hσ hst.size_le
  plain s _ := s.owns_of_isPlain
  bound hs := hs.owns
  set {s σ x v} hs _ hv := hs.set σ x hv
  closure {s σ} _ _ hs hσ := ⟨hs.fresh, Nat.lt_succ_self _, hσ⟩
  enter {s f vs} hs hf hvs := by
    refine ⟨hs.add (fun hw => hvs _ (Evaluation.mem_of_bindParameters hw)) fun τ hτ => ?_, ?_⟩
    · rcases List.mem_cons.1 hτ with rfl | hτ
      · exact hf.2
      · exact hs.enclosing_lt hτ
    · show _ < Array.size _
      rw [Store.size_add]
      exact Nat.lt_succ_self _

/-- A program that is run in a scope of a valid store leaves a valid one, which has the scope
too. -/
theorem Store.Valid.program {s t : Store} {σ : ScopeId} (hs : s.Valid) (hσ : σ < s.scopes.size)
    {n : Nat} {p : Program} {v : Value} (h : p.evaluate n σ s = some (v, t)) :
    t.Valid ∧ σ < t.scopes.size := by
  have hkeeps : valid.Keeps valid.value (evalBlock n σ p.statements) s :=
    Invariant.keeps_block n hσ p.statements
  rw [p.evaluate_eq_evalBlock] at h
  obtain ⟨ht, hst⟩ := hkeeps.conclude hs (fun _ => .fresh) h
  exact ⟨ht, Nat.lt_of_lt_of_le hσ hst.size_le⟩

end MonkeyLang
