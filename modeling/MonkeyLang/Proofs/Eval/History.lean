import MonkeyLang.Proofs.Eval.Sequence
import MonkeyLang.Proofs.Eval.Valid
import MonkeyLang.Proofs.Scope.History

/-!
# Programs do nothing to scopes but by operations

What an evaluation does to a store is done by the operations that make scopes: a binding binds one
name, and a call makes a scope inside that of the function and binds its parameters there, one by
one. So a store that operations have made is made by these and some more when a program has been run
in it (`Store.Made.program`), and what is true of scopes because of the operations that made them is
true of those in which programs run.

A `History` is a valid store with the operations that have made it. It is what is kept track of.
-/

namespace MonkeyLang

open Store (Operation Made)

/-- A valid store and operations that have made it. -/
structure History where
  operations : List Operation
  store : Store
  store_made : Made operations store
  store_valid : store.Valid

namespace History

/-- A history is below those that go on from it. -/
instance : Preorder History where
  le h h' := h.operations <+: h'.operations ∧ h.store.Grows h'.store
  le_refl h := ⟨List.prefix_rfl, .refl h.store⟩
  le_trans _ _ _ h h' := ⟨h.1.trans h'.1, h.2.trans h'.2⟩

/-- Identities may be dealt out between the operations. -/
theorem exists_fresh (h : History) : ∃ h', h ≤ h' ∧ h.store.fresh.2 = h'.store :=
  ⟨⟨h.operations, _, h.store_made.fresh, h.store_valid.fresh⟩,
    ⟨List.prefix_rfl, h.store.grows_fresh⟩, rfl⟩

/-- The store is the one that the history has come to. -/
def tracking : Tracking History where
  store h s := s = h.store
  value h := h.store.Owns
  scope h σ := σ < h.store.scopes.size
  value_mono hle := .of_grows hle.2
  scope_mono hle hσ := Nat.lt_of_lt_of_le hσ hle.2.size_le
  plain h _ := h.store.owns_of_isPlain
  bound := by
    rintro h _ σ x v rfl hv
    exact h.store_valid.owns hv
  set := by
    rintro h _ σ v x rfl hσ hv
    have hmade := h.store_made.snoc (o := .set σ x v) hσ
    refine ⟨⟨_, _, hmade, h.store_valid.set σ x hv⟩, ⟨?_, ?_⟩, rfl⟩
    · exact List.prefix_append _ _
    · exact h.store.grows_set σ x v
  closure := by
    rintro h _ σ xs body rfl hσ
    obtain ⟨h', hle, hstore⟩ := h.exists_fresh
    exact ⟨h', hle, hstore, hstore ▸ (valid.closure xs body h.store_valid hσ).2⟩
  enter := by
    rintro h _ f vs rfl hf hvs
    obtain ⟨hvalid, hσ⟩ := valid.enter h.store_valid hf hvs
    refine ⟨⟨_, _, h.store_made.enter hf.2 rfl, hvalid⟩, ⟨?_, ?_⟩, rfl, hσ⟩
    · exact List.prefix_append _ _
    · exact h.store.grows_add _ _

end History

namespace Store

variable {os : List Operation} {s t : Store} {σ : ScopeId} {n : Nat}

/-- A program that is run in a scope of a store goes on with the operations that have made it. -/
theorem Made.program (h : Made os s) (hs : s.Valid) (hσ : σ < s.scopes.size) {p : Program}
    {v : Value} (hrun : p.evaluate n σ s = some (v, t)) : ∃ os', Made (os ++ os') t := by
  let start : History := ⟨os, s, h, hs⟩
  have hkeeps : History.tracking.Keeps History.tracking.value (evalBlock n σ p.statements)
      start s := Tracking.keeps_block n hσ p.statements
  rw [p.evaluate_eq_evalBlock] at hrun
  obtain ⟨h', ⟨⟨os', hos⟩, -⟩, rfl⟩ := hkeeps.conclude rfl (by
    rintro h' _ rfl
    exact h'.exists_fresh) hrun
  exact ⟨os', hos ▸ h'.store_made⟩

/-- Whatever a source is, the operations of its evaluation make the store that it leaves, the scope
it is run in first. -/
theorem made_of_interpret {source : String} {i : Interpretation}
    (h : interpret n source = some (i, t)) : ∃ os, Made (.root :: os) t := by
  have hroot : Made [.root] .initial := Made.nil.snoc trivial
  rcases interpretIn_cases h with ⟨-, rfl⟩ | ⟨v, -, hrun⟩
  · exact ⟨[], hroot⟩
  · exact hroot.program initial_valid Nat.zero_lt_one hrun

end Store

end MonkeyLang
