import MonkeyLang.Proofs.Eval.Renaming
import MonkeyLang.Proofs.Eval.Valid

/-!
# What is reached from values, and agreement on it

From values scopes can be reached: those that functions have captured, those around them, and those
that lead on from what is bound in these (`Store.Reaches`). Two stores agree on values if that part
of them is the same up to a renaming (`Renaming.Agree`), and the renaming of that part then relates
them (`Renaming.Agree.relates`). A store agrees with a later one, in which what is reached is as it
was (`Store.Grows.agree`).
-/

namespace MonkeyLang

theorem exists_mem_of_forall₂ {α β : Type} {R : α → β → Prop} {as : List α} {bs : List β}
    (h : List.Forall₂ R as bs) {b : β} (hb : b ∈ bs) : ∃ a ∈ as, R a b := by
  induction h with
  | nil => cases hb
  | cons hab _ ih =>
    rcases List.mem_cons.1 hb with rfl | hb
    · exact ⟨_, List.mem_cons_self, hab⟩
    · obtain ⟨a, ha, hab⟩ := ih hb
      exact ⟨a, List.mem_cons_of_mem _ ha, hab⟩

/-! ## What is reached -/

/-- The scopes that are reached from values: those that functions among them have captured, the
scopes around a scope reached, and those that functions bound there have captured. -/
inductive Store.Reaches (s : Store) (vs : List Value) : ScopeId → Prop
  | captured {f} : .function f ∈ vs → Reaches s vs f.scope
  | enclosing {σ τ} : Reaches s vs σ → τ ∈ (s.scope σ).enclosing → Reaches s vs τ
  | bound {σ x f} : Reaches s vs σ → (s.bindings σ).get? x = some (.function f) →
      Reaches s vs f.scope

namespace Renaming

variable {r : Renaming} {s t : Store} {vs ws : List Value} {v w : Value}

/-- The values in the one store and in the other are the same up to the renaming, and so is all that
is reached from them. What is not reached need not correspond to anything. -/
structure Agree (r : Renaming) (s t : Store) (vs ws : List Value) : Prop where
  scope_lt : ∀ {σ τ}, r.scopes σ τ → σ < s.scopes.size ∧ τ < t.scopes.size
  identity_lt : ∀ {i j}, r.identities i j → i < s.nextIdentity ∧ j < t.nextIdentity
  values : List.Forall₂ r.Alike vs ws
  alike : ∀ {σ τ}, s.Reaches vs σ → r.scopes σ τ → r.AlikeScopes (s.scope σ) (t.scope τ)

/-- The renaming, of scopes with a property only. -/
def restrict (r : Renaming) (p : ScopeId → Prop) : Renaming where
  scopes σ τ := p σ ∧ r.scopes σ τ
  identities := r.identities
  scopes_biUnique :=
    ⟨fun _ _ _ h h' => r.scopes_biUnique.1 h.2 h'.2, fun _ _ _ h h' => r.scopes_biUnique.2 h.2 h'.2⟩
  identities_biUnique := r.identities_biUnique

theorem Alike.restrict {p : ScopeId → Prop} (h : r.Alike v w)
    (hp : ∀ f, v = .function f → p f.scope) : (r.restrict p).Alike v w := by
  cases h with
  | integer n => exact .integer n
  | string contents => exact .string contents
  | null ha => exact .null ha
  | boolean ha => exact .boolean ha
  | builtin ha => exact .builtin ha
  | function hi hσ => exact .function hi ⟨hp _ rfl, hσ⟩
  | error hi => exact .error hi

namespace Agree

/-- Where stores agree, the renaming of what is reached relates them. -/
theorem relates (h : r.Agree s t vs ws) : (r.restrict (s.Reaches vs)).Relates s t where
  scope_lt hσ := h.scope_lt hσ.2
  identity_lt := h.identity_lt
  alike {σ τ} := by
    rintro ⟨hσ, hτ⟩
    obtain ⟨hbindings, henclosing⟩ := h.alike hσ hτ
    refine ⟨fun x => rel_imp (hbindings x) fun v w hv hvw => hvw.restrict ?_, ?_⟩
    · rintro f rfl
      exact .bound hσ hv
    · exact (List.forall₂_and_left _ _).2 ⟨fun _ hmem => .enclosing hσ hmem, henclosing⟩

/-- Where stores agree on values, these correspond as far as they are reached. -/
theorem values_restrict (h : r.Agree s t vs ws) :
    List.Forall₂ (r.restrict (s.Reaches vs)).Alike vs ws := by
  have hmem : List.Forall₂ (fun v w => v ∈ vs ∧ r.Alike v w) vs ws :=
    (List.forall₂_and_left vs ws).2 ⟨fun _ hv => hv, h.values⟩
  refine hmem.imp ?_
  rintro v w ⟨hv, hvw⟩
  refine hvw.restrict ?_
  rintro f rfl
  exact .captured hv

/-- What is reached in the one store corresponds to what is reached in the other. -/
theorem exists_reaches (h : r.Agree s t vs ws) {τ : ScopeId} (hτ : t.Reaches ws τ) :
    ∃ σ, r.scopes σ τ ∧ s.Reaches vs σ := by
  induction hτ with
  | captured hg =>
    obtain ⟨v, hv, halike⟩ := exists_mem_of_forall₂ h.values hg
    cases halike with
    | function _ hσ => exact ⟨_, hσ, .captured hv⟩
  | enclosing _ hmem ih =>
    obtain ⟨σ, hσ, hreach⟩ := ih
    obtain ⟨σ', hσ', hrel⟩ := exists_mem_of_forall₂ (h.alike hreach hσ).enclosing hmem
    exact ⟨σ', hrel, .enclosing hreach hσ'⟩
  | @bound τ x g _ hg ih =>
    obtain ⟨σ, hσ, hreach⟩ := ih
    have hx := (h.alike hreach hσ).bindings x
    rw [Store.bindings] at hg
    rw [hg] at hx
    generalize hfound : (s.scope σ).bindings.get? x = found at hx
    cases hx with
    | some halike =>
      cases halike with
      | function _ hσ' => exact ⟨_, hσ', .bound hreach hfound⟩

/-- Agreement does not depend on which store is the first. -/
theorem symm (h : r.Agree s t vs ws) : r.symm.Agree t s ws vs where
  scope_lt hσ := (h.scope_lt hσ).symm
  identity_lt hi := (h.identity_lt hi).symm
  values := (h.values.imp fun _ _ => .symm).flip
  alike {τ σ} hτ hσ := by
    obtain ⟨σ', hσ', hreach⟩ := h.exists_reaches hτ
    obtain rfl : σ' = σ := r.scopes_biUnique.1 hσ' hσ
    exact (h.alike hreach hσ).symm

end Agree

end Renaming

/-! ## Stores that have what is reached in common -/

/-- Numbers below a bound, each paired off with itself. -/
def diagonal (k a b : Nat) : Prop := a = b ∧ a < k

theorem biUnique_diagonal (k : Nat) : Relator.BiUnique (diagonal k) :=
  ⟨fun _ _ _ h h' => h.1.trans h'.1.symm, fun _ _ _ h h' => h.1.symm.trans h'.1⟩

namespace Store

variable {s t : Store} {vs : List Value} {v : Value}

/-- What there is in a store, each paired off with itself. -/
def identity (s : Store) : Renaming where
  scopes := diagonal s.scopes.size
  identities := diagonal s.nextIdentity
  scopes_biUnique := biUnique_diagonal _
  identities_biUnique := biUnique_diagonal _

theorem Deals.alikeAddresses {a : Address} (h : s.Deals a) :
    Renaming.AlikeAddresses s.identity.identities a a := by
  cases a with
  | made i => exact .made ⟨rfl, h⟩
  | null | boolean _ | builtin _ => constructor

theorem Owns.alike (h : s.Owns v) : s.identity.Alike v v := by
  cases v with
  | integer n => exact .integer n
  | string contents => exact .string contents
  | null a => exact .null (Deals.alikeAddresses h)
  | boolean b => exact .boolean (Deals.alikeAddresses h)
  | builtin f => exact .builtin (Deals.alikeAddresses h)
  | function f => exact .function ⟨rfl, h.1⟩ ⟨rfl, h.2⟩
  | error i message => exact .error ⟨rfl, h⟩

theorem Valid.alikeScopes (h : s.Valid) (σ : ScopeId) :
    s.identity.AlikeScopes (s.scope σ) (s.scope σ) where
  bindings x := by
    have hv := fun v => @h.owns σ x v
    rw [bindings] at hv
    generalize (s.scope σ).bindings.get? x = found at hv ⊢
    cases found with
    | none => exact .none
    | some v => exact .some (hv v rfl).alike
  enclosing := List.forall₂_same.2 fun τ hτ => ⟨rfl, h.enclosing_lt hτ⟩

/-- In a valid store only scopes that are in it are reached. -/
theorem Valid.lt_of_reaches (h : s.Valid) (hvs : ∀ v ∈ vs, s.Owns v) {σ : ScopeId}
    (hσ : s.Reaches vs σ) : σ < s.scopes.size := by
  cases hσ with
  | captured hf => exact (hvs _ hf).2
  | enclosing _ hmem => exact h.enclosing_lt hmem
  | bound _ hf => exact (h.owns hf).2

/-- A store that has grown agrees with what it was on all that is reached, if that is still the
same. -/
theorem Grows.agree (hst : s.Grows t) (hs : s.Valid) (hvs : ∀ v ∈ vs, s.Owns v)
    (hsame : ∀ σ, s.Reaches vs σ → t.scope σ = s.scope σ) : s.identity.Agree s t vs vs where
  scope_lt := by
    rintro σ _ ⟨rfl, hσ⟩
    exact ⟨hσ, Nat.lt_of_lt_of_le hσ hst.size_le⟩
  identity_lt := by
    rintro i _ ⟨rfl, hi⟩
    exact ⟨hi, Nat.lt_of_lt_of_le hi hst.identity_le⟩
  values := List.forall₂_same.2 fun v hv => (hvs v hv).alike
  alike := by
    rintro σ _ hσ ⟨rfl, -⟩
    rw [hsame σ hσ]
    exact hs.alikeScopes σ

end Store

end MonkeyLang
