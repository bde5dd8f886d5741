import MonkeyLang.Proofs.Eval.Agreement
import MonkeyLang.Proofs.Eval.Bound
import MonkeyLang.Proofs.Eval.Frame
import MonkeyLang.Proofs.Eval.Simulation

/-!
# Calls are lexically scoped and repeatable

A call sees of a store what can be reached from the callee and the arguments. Where two stores agree
on that, calls in both end alike, or neither ends (`calls_end_alike`). So what else is bound
anywhere, in the scope of the caller for one, is of no account; and since a call changes no scope
there was, the same call ends alike once more.
-/

namespace MonkeyLang

namespace Renaming

variable {r : Renaming} {s t : Store} {f g : Value} {vs ws : List Value}

/-- Either both calls end or neither does, and where they end, the stores that are left and the
outcomes correspond. They do under a renaming with all pairs of identities that `r` has, and its
pairs of scopes that are reached. -/
structure SameCall (r : Renaming) (s t : Store) (f g : Value) (vs ws : List Value) : Prop where
  ends_iff : (∃ n p, apply n f vs s = some p) ↔ ∃ n q, apply n g ws t = some q
  ends : ∀ {m n p q}, apply m f vs s = some p → apply n g ws t = some q →
    (r.restrict (s.Reaches (f :: vs))).Ends Alike p q

/-- Where stores agree on callee and arguments, calls are the same. -/
theorem Agree.sameCall (h : r.Agree s t (f :: vs) (g :: ws)) : r.SameCall s t f g vs ws := by
  obtain ⟨hf, hvs⟩ := List.forall₂_cons.1 h.values_restrict
  have hfollows : ∀ n, Option.Rel ((r.restrict (s.Reaches (f :: vs))).Ends Alike)
      (apply n f vs s) (apply n g ws t) := fun n => follows_call n hf hvs s t h.relates
  refine ⟨⟨?_, ?_⟩, ?_⟩
  · rintro ⟨n, p, hp⟩
    have hn := hfollows n
    rw [hp] at hn
    generalize hq : apply n g ws t = q at hn
    cases hn with
    | @some _ q => exact ⟨n, q, hq⟩
  · rintro ⟨n, q, hq⟩
    have hn := hfollows n
    rw [hq] at hn
    generalize hp : apply n f vs s = p at hn
    cases hn with
    | @some p _ => exact ⟨n, p, hp⟩
  · -- Both calls end as they do within the larger of the two bounds.
    intro m n p q hp hq
    have hmax := hfollows (max m n)
    rw [apply_below (Nat.le_max_left m n) f vs s p hp,
      apply_below (Nat.le_max_right m n) g ws t q hq] at hmax
    exact Option.rel_some_some.1 hmax

end Renaming

/-- Whether stores agree does not depend on which of them is the first. Let two stores agree on a
callee and on arguments. Then the calls in both end alike, or neither ends. So they do in a store
and a later one, in which whatever is reached from callee and arguments is as it was, however the
scopes that are not reached have changed. And where a call has ended, the same call ends in the
store it left, and alike. -/
theorem calls_end_alike :
    (∀ (r : Renaming) s t vs ws, r.Agree s t vs ws → r.symm.Agree t s ws vs) ∧
    (∀ (r : Renaming) s t f g vs ws, r.Agree s t (f :: vs) (g :: ws) →
      r.SameCall s t f g vs ws) ∧
    (∀ (s t : Store) f vs, s.Valid → (∀ v ∈ f :: vs, s.Owns v) → s.Grows t →
      (∀ σ, s.Reaches (f :: vs) σ → t.scope σ = s.scope σ) →
        s.identity.SameCall s t f f vs vs) ∧
    ∀ (s t : Store) f vs n o, s.Valid → (∀ v ∈ f :: vs, s.Owns v) →
      apply n f vs s = some (o, t) →
        (∃ m q, apply m f vs t = some q) ∧ s.identity.SameCall s t f f vs vs := by
  refine ⟨fun r s t vs ws h => h.symm, fun r s t f g vs ws h => h.sameCall, ?_, ?_⟩
  · intro s t f vs hs hvs hst hsame
    exact (hst.agree hs hvs hsame).sameCall
  · intro s t f vs n o hs hvs hcall
    obtain ⟨hf, hargs⟩ := List.forall_mem_cons.1 hvs
    obtain ⟨-, hst, -⟩ := Invariant.keeps_call (I := valid) n hf hargs hs o t hcall
    have hextends := apply_extends n f vs s o t hcall
    have hsame : s.identity.SameCall s t f f vs vs :=
      (hst.agree hs hvs fun σ hσ => hextends.scope_eq σ (hs.lt_of_reaches hvs hσ)).sameCall
    exact ⟨hsame.ends_iff.1 ⟨n, _, hcall⟩, hsame⟩

theorem biUnique_pair (m n : Nat) : Relator.BiUnique fun a b => a = m ∧ b = n :=
  ⟨fun _ _ _ h h' => h.1.trans h'.1.symm, fun _ _ _ h h' => h.2.trans h'.2.symm⟩

/-- The renaming that pairs off one scope and one identity of either store. -/
def Renaming.single (σ τ : ScopeId) (i j : Identity) : Renaming where
  scopes a b := a = σ ∧ b = τ
  identities a b := a = i ∧ b = j
  scopes_biUnique := biUnique_pair σ τ
  identities_biUnique := biUnique_pair i j

/-- A function that asks whether it was called with itself: in a store, in one that holds it in
another scope and under another identity, in a later store with a scope where its name is bound to
something else, and once more after a call. -/
theorem calls_end_alike_self :
    let body : List Stmt := [.expression (.binary .equal (.identifier "x") (.identifier "f"))]
    let f : Value := .function ⟨0, ["x"], body, 0⟩
    let g : Value := .function ⟨4, ["x"], body, 1⟩
    let s : Store := Store.initial.fresh.2.set 0 "f" f
    let t : Store := { Store.initial.root.2 with nextIdentity := 5 }.set 1 "f" g
    let caller : Store := (s.enclose 0).2.set 1 "f" .null
    let r : Renaming := .single 0 1 0 4
    r.Agree s t [f, f] [g, g] ∧ r.symm.Agree t s [g, g] [f, f] ∧ r.SameCall s t f g [f] [g] ∧
      s.Valid ∧ (∀ v ∈ [f, f], s.Owns v) ∧ s.Grows caller ∧
      (∀ σ, s.Reaches [f, f] σ → caller.scope σ = s.scope σ) ∧
      s.identity.SameCall s caller f f [f] [f] ∧
      ∃ u, apply 9 f [f] s = some (.result (.boolean true), u) ∧
        (∃ m q, apply m f [f] u = some q) ∧ s.identity.SameCall s u f f [f] [f] := by
  intro body f g s t caller r
  have hfg : r.Alike f g := .function ⟨rfl, rfl⟩ ⟨rfl, rfl⟩
  have hagree : r.Agree s t [f, f] [g, g] := by
    refine ⟨?_, ?_, .cons hfg (.cons hfg .nil), ?_⟩
    · rintro σ τ ⟨rfl, rfl⟩
      exact ⟨Nat.lt_succ_self 0, Nat.lt_succ_self 1⟩
    · rintro i j ⟨rfl, rfl⟩
      exact ⟨Nat.lt_succ_self 0, Nat.lt_succ_self 4⟩
    · rintro σ τ - ⟨rfl, rfl⟩
      have hempty : r.AlikeBindings .empty .empty := fun _ => .none
      exact ⟨hempty.insert "f" hfg, .nil⟩
  have howns : s.Owns f := ⟨Nat.lt_succ_self 0, Nat.lt_succ_self 0⟩
  have hvalid : s.Valid := Store.initial_valid.fresh.set 0 "f" howns
  have hvalues : ∀ v ∈ [f, f], s.Owns v :=
    List.forall_mem_cons.2 ⟨howns, List.forall_mem_singleton.2 howns⟩
  have hgrows : s.Grows caller := (s.grows_add _ _).trans (Store.grows_set _ 1 "f" .null)
  have hsame : ∀ σ, s.Reaches [f, f] σ → caller.scope σ = s.scope σ := by
    intro σ hσ
    obtain rfl : σ = 0 := Nat.lt_one_iff.1 (hvalid.lt_of_reaches hvalues hσ)
    rfl
  obtain ⟨hsymm, hrenamed, hcaller, hagain⟩ := calls_end_alike
  exact ⟨hagree, hsymm r s t [f, f] [g, g] hagree, hrenamed r s t f g [f] [g] hagree, hvalid,
    hvalues, hgrows, hsame, hcaller s caller f [f] hvalid hvalues hgrows hsame, _, rfl,
    hagain s _ f [f] 9 _ hvalid hvalues rfl⟩

end MonkeyLang
