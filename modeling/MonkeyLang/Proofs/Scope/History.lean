import Mathlib.Data.List.Induction
import Mathlib.Data.Set.Card
import MonkeyLang.Eval.Evaluation
import MonkeyLang.Proofs.Scope.Store
import MonkeyLang.Proofs.Text.ByteOrder

/-!
# Scopes keep what was last bound in them

A store is made of nothing by operations: making a scope by itself, making one inside another one,
binding a name in one (`Store.Made`). What it holds is told by the operations alone. The links from
scopes to those around them are those with which they were made, and lead to scopes made earlier, so
that the way outwards ends (`Made.outwards`). A name is bound in a scope to the value it was last
bound to there (`Made.bound_iff`), and a look-up finds that value in the first scope on the way
outwards in which the name was ever bound. All of it is by induction on the operations, with one
lemma for what each of them does to a scope.
-/

namespace MonkeyLang.Store

/-- What may be done with the scopes of a store. -/
inductive Operation where
  /-- Making a scope with nothing around it. -/
  | root
  /-- Making a scope inside another one. -/
  | enclose (σ : ScopeId)
  /-- Binding a name in a scope. -/
  | set (σ : ScopeId) (name : String) (value : Value)

namespace Operation

/-- The scope that the operation names is there. -/
def Applies (s : Store) : Operation → Prop
  | root => True
  | enclose σ | set σ _ _ => σ < s.scopes.size

/-- The store that the operation leaves. -/
def run (s : Store) : Operation → Store
  | root => s.root.2
  | enclose σ => (s.enclose σ).2
  | set σ x v => s.set σ x v

/-- The link of the scope that the operation makes, if it makes one: to the scope around it, if
there is one. -/
def link? : Operation → Option (Option ScopeId)
  | root => some none
  | enclose σ => some (some σ)
  | set _ _ _ => none

end Operation

/-- The operations, one after the other, make the store out of nothing. Identities may be dealt out
between them, which changes no scope. -/
inductive Made : List Operation → Store → Prop
  | nil : Made [] .empty
  | snoc {os s o} : Made os s → o.Applies s → Made (os ++ [o]) (o.run s)
  | fresh {os s} : Made os s → Made os s.fresh.2

/-- Some operation binds the name in the scope. -/
def EverSet (os : List Operation) (σ : ScopeId) (x : String) : Prop := ∃ v, .set σ x v ∈ os

/-- The last operation that binds the name in the scope binds it to the value. -/
def LastSet (os : List Operation) (σ : ScopeId) (x : String) (v : Value) : Prop :=
  ∃ before after, os = before ++ .set σ x v :: after ∧ ¬ EverSet after σ x

/-- The scopes on the way outwards from one, up to a scope with nothing around it. -/
inductive Outwards (s : Store) : ScopeId → List ScopeId → Prop
  | outermost {σ} : s.outer? σ = none → Outwards s σ [σ]
  | inside {σ τ chain} : s.outer? σ = some τ → Outwards s τ chain → Outwards s σ (σ :: chain)

/-! ## What was bound last -/

section
variable {os : List Operation} {o : Operation} {σ τ : ScopeId} {x : String} {v : Value}

theorem lastSet_concat :
    LastSet (os ++ [o]) σ x v ↔ o = .set σ x v ∨ (∀ w, o ≠ .set σ x w) ∧ LastSet os σ x v := by
  constructor
  · rintro ⟨before, after, heq, hafter⟩
    rcases List.eq_nil_or_concat after with rfl | ⟨after, o', rfl⟩
    · obtain ⟨-, hlast⟩ := List.append_inj' heq rfl
      exact .inl (List.cons.inj hlast).1
    · rw [List.concat_eq_append, ← List.cons_append, ← List.append_assoc] at heq
      obtain ⟨rfl, hlast⟩ := List.append_inj' heq rfl
      obtain rfl := (List.cons.inj hlast).1
      refine .inr ⟨fun w hw => hafter ⟨w, by simp [hw]⟩, before, after, rfl, ?_⟩
      rintro ⟨w, hw⟩
      exact hafter ⟨w, by simp [hw]⟩
  · rintro (rfl | ⟨hne, before, after, rfl, hafter⟩)
    · exact ⟨os, [], rfl, fun ⟨w, hw⟩ => nomatch hw⟩
    · refine ⟨before, after ++ [o], by simp, ?_⟩
      rintro ⟨w, hw⟩
      rcases List.mem_append.1 hw with hw | hw
      · exact hafter ⟨w, hw⟩
      · exact hne w (List.mem_singleton.1 hw).symm

/-- Where a name was ever bound, there is a value to which it was bound last. -/
theorem everSet_iff : EverSet os σ x ↔ ∃ v, LastSet os σ x v := by
  constructor
  · induction os using List.reverseRecOn with
    | nil => exact fun ⟨v, hv⟩ => nomatch hv
    | append_singleton os o ih =>
      rintro ⟨v, hv⟩
      by_cases ho : ∃ w, o = .set σ x w
      · obtain ⟨w, hw⟩ := ho
        exact ⟨w, lastSet_concat.2 (.inl hw)⟩
      · have hne : ∀ w, o ≠ .set σ x w := fun w hw => ho ⟨w, hw⟩
        rcases List.mem_append.1 hv with hv | hv
        · obtain ⟨w, hw⟩ := ih ⟨v, hv⟩
          exact ⟨w, lastSet_concat.2 (.inr ⟨hne, hw⟩)⟩
        · exact absurd (List.mem_singleton.1 hv).symm (hne v)
  · rintro ⟨v, before, after, rfl, -⟩
    exact ⟨v, by simp⟩

end

/-! ## What an operation does to a scope -/

section
variable {s : Store} {σ τ : ScopeId}

/-- A new scope binds nothing, as it did before it was there. -/
theorem bindings_add_empty (s : Store) (e : List ScopeId) (τ : ScopeId) :
    (s.add .empty e).2.bindings τ = s.bindings τ := by
  by_cases hτ : τ = s.scopes.size
  · rw [hτ, bindings, scope_add_self, bindings, scope_of_size_le (Nat.le_refl _)]
  · rw [bindings, scope_add_of_ne .empty e hτ, bindings]

theorem outer?_add_of_ne (e : List ScopeId) (h : σ ≠ s.scopes.size) :
    (s.add .empty e).2.outer? σ = s.outer? σ := by
  rw [outer?, scope_add_of_ne .empty e h, outer?]

theorem outer?_add_self (s : Store) (e : List ScopeId) :
    (s.add .empty e).2.outer? s.scopes.size = e.head? := by
  rw [outer?, scope_add_self]

theorem chain_add_of_ne (e : List ScopeId) (h : σ ≠ s.scopes.size) :
    (s.add .empty e).2.chain σ = s.chain σ := by
  rw [chain, scope_add_of_ne .empty e h, chain]

theorem outer?_set (s : Store) (σ : ScopeId) (x : String) (v : Value) (τ : ScopeId) :
    (s.set σ x v).outer? τ = s.outer? τ := by
  rw [outer?, enclosing_set, outer?]

theorem chain_set (s : Store) (σ : ScopeId) (x : String) (v : Value) (τ : ScopeId) :
    (s.set σ x v).chain τ = s.chain τ := by
  rw [chain, enclosing_set, chain]

/-- Binding a name in a new scope is making the scope with it. -/
theorem set_add_self (s : Store) (b : Bindings Value) (e : List ScopeId) (x : String) (v : Value) :
    (s.add b e).2.set s.scopes.size x v = (s.add (b.insert x v) e).2 := by
  have hscopes : ((s.scopes.push ⟨b, e⟩).modify s.scopes.size fun scope =>
      { scope with bindings := scope.bindings.insert x v }) =
        s.scopes.push ⟨b.insert x v, e⟩ := by
    refine Array.ext (by simp) fun i hi _ => ?_
    rw [Array.getElem_modify]
    by_cases hlast : s.scopes.size = i
    · subst hlast
      simp
    · have hlt : i < s.scopes.size := by
        rw [Array.size_modify, Array.size_push] at hi
        omega
      rw [if_neg hlast, Array.getElem_push_lt hlt, Array.getElem_push_lt hlt]
  simp only [set, add, hscopes]

theorem lt_size_of_outer? (h : s.outer? σ = some τ) : σ < s.scopes.size := by
  refine Nat.not_le.1 fun hle => ?_
  rw [outer?, scope_of_size_le hle] at h
  cases h

end

/-! ## The way outwards -/

/-- Links lead to scopes made earlier, and on to all the scopes around these. -/
def Nested (s : Store) : Prop :=
  ∀ σ τ, s.outer? σ = some τ → τ < σ ∧ s.chain σ = σ :: s.chain τ

namespace Nested

variable {s : Store} {σ τ : ScopeId}

theorem empty : Nested .empty := fun _ _ h => absurd (lt_size_of_outer? h) (Nat.not_lt_zero _)

/-- A scope is made with nothing around it, or inside a scope that is there. -/
theorem add (h : s.Nested) {e : List ScopeId}
    (he : ∀ ρ, e.head? = some ρ → ρ < s.scopes.size ∧ e = s.chain ρ) :
    Nested (s.add .empty e).2 := by
  intro σ τ hσ
  by_cases hself : σ = s.scopes.size
  · subst hself
    rw [outer?_add_self] at hσ
    obtain ⟨hlt, hchain⟩ := he τ hσ
    rw [chain_add_of_ne e (Nat.ne_of_lt hlt), ← hchain, chain, scope_add_self]
    exact ⟨hlt, rfl⟩
  · rw [outer?_add_of_ne e hself] at hσ
    obtain ⟨hlt, hchain⟩ := h σ τ hσ
    have hτ := Nat.lt_trans hlt (lt_size_of_outer? hσ)
    rw [chain_add_of_ne e hself, chain_add_of_ne e (Nat.ne_of_lt hτ)]
    exact ⟨hlt, hchain⟩

theorem set (h : s.Nested) (ρ : ScopeId) (x : String) (v : Value) : Nested (s.set ρ x v) := by
  intro σ τ hσ
  rw [outer?_set] at hσ
  rw [chain_set, chain_set]
  exact h σ τ hσ

/-- The scopes of a chain are those on the way outwards. -/
theorem outwards (h : s.Nested) (σ : ScopeId) : s.Outwards σ (s.chain σ) := by
  induction σ using Nat.strongRecOn with
  | ind σ ih =>
    cases houter : s.outer? σ with
    | none =>
      have hnil : (s.scope σ).enclosing = [] := List.head?_eq_none_iff.1 houter
      rw [chain, hnil]
      exact .outermost houter
    | some τ =>
      obtain ⟨hlt, hchain⟩ := h σ τ houter
      rw [hchain]
      exact .inside houter (ih τ hlt)

/-- On the way outwards each scope was made before the one inside it. -/
theorem decreasing (h : s.Nested) {chain : List ScopeId} (hchain : s.Outwards σ chain) :
    (∀ τ ∈ chain, τ ≤ σ) ∧ chain.Pairwise (· > ·) := by
  induction hchain with
  | outermost => simp
  | @inside σ τ chain houter _ ih =>
    obtain ⟨hle, hpairwise⟩ := ih
    have hlt : ∀ ρ ∈ chain, ρ < σ := fun ρ hρ => Nat.lt_of_le_of_lt (hle ρ hρ) (h σ τ houter).1
    refine ⟨List.forall_mem_cons.2 ⟨Nat.le_refl σ, fun ρ hρ => Nat.le_of_lt (hlt ρ hρ)⟩, ?_⟩
    exact .cons hlt hpairwise

end Nested

/-! ## What the operations have made -/

namespace Made

variable {os : List Operation} {s t : Store} {σ : ScopeId} {x : String} {v : Value}

theorem nested (h : Made os s) : s.Nested := by
  induction h with
  | nil => exact .empty
  | @snoc os s o _ ho ih =>
    cases o with
    | root => exact ih.add nofun
    | enclose σ =>
      refine ih.add fun ρ hρ => ?_
      obtain rfl : σ = ρ := Option.some.inj hρ
      exact ⟨ho, rfl⟩
    | set σ x v => exact ih.set σ x v
  | fresh _ ih => exact ih

/-- In the order in which they were made, scopes have the links with which they were made. -/
theorem links_eq (h : Made os s) :
    (List.range s.scopes.size).map s.outer? = os.filterMap Operation.link? := by
  have hadd : ∀ (s : Store) (e : List ScopeId),
      (List.range (s.add .empty e).2.scopes.size).map (s.add .empty e).2.outer? =
        (List.range s.scopes.size).map s.outer? ++ [e.head?] := by
    intro s e
    rw [size_add, List.range_succ, List.map_append, List.map_singleton, outer?_add_self]
    congr 1
    refine List.map_congr_left fun σ hσ => outer?_add_of_ne e ?_
    exact Nat.ne_of_lt (List.mem_range.1 hσ)
  induction h with
  | nil => rfl
  | @snoc os s o _ ho ih =>
    rw [List.filterMap_append, ← ih]
    cases o with
    | root => exact hadd s []
    | enclose σ => exact hadd s (s.chain σ)
    | set σ x v =>
      have hsame : (s.set σ x v).outer? = s.outer? := funext (s.outer?_set σ x v)
      rw [Operation.run, size_set, hsame]
      exact (List.append_nil _).symm
  | fresh _ ih => exact ih

/-- What is done later leaves the links as they are. -/
theorem outer?_eq {os' : List Operation} (h : Made os s) (ht : Made (os ++ os') t)
    (hσ : σ < s.scopes.size) : t.outer? σ = s.outer? σ := by
  have hlinks := ht.links_eq
  rw [List.filterMap_append, ← h.links_eq] at hlinks
  have hat := congrArg (·[σ]?) hlinks
  rw [List.getElem?_append_left (by simpa using hσ)] at hat
  simp only [List.getElem?_map, List.getElem?_range hσ, Option.map_some] at hat
  obtain ⟨τ, hτ, houter⟩ := Option.map_eq_some_iff.1 hat
  obtain ⟨hlt, rfl⟩ := List.getElem?_eq_some_iff.1 hτ
  rwa [List.getElem_range] at houter

/-- A name is bound to the value it was last bound to. -/
theorem bound_iff (h : Made os s) : (s.bindings σ).get? x = some v ↔ LastSet os σ x v := by
  induction h with
  | nil =>
    rw [bindings, scope_of_size_le (Nat.zero_le σ), Bindings.get?_empty]
    constructor
    · intro hv
      cases hv
    · rintro ⟨before, after, heq, -⟩
      simp at heq
  | @snoc os s o hs ho ih =>
    rw [lastSet_concat, ← ih]
    cases o with
    | root =>
      rw [Operation.run, root, bindings_add_empty]
      simp
    | enclose τ =>
      rw [Operation.run, enclose, bindings_add_empty]
      simp
    | set τ y w =>
      rw [Operation.run, get?_bindings_set ho]
      split
      · next hsame =>
        obtain ⟨rfl, rfl⟩ := hsame
        simp
      · next hother =>
        have hne : ∀ u, Operation.set τ y w ≠ .set σ x u := by
          rintro u ⟨⟩
          exact hother ⟨rfl, rfl⟩
        exact ⟨fun hv => .inr ⟨hne, hv⟩, fun hv => (hv.resolve_left (hne v)).2⟩
  | fresh _ ih => exact ih

theorem contains_iff (h : Made os s) :
    (s.bindings σ).contains x = true ↔ EverSet os σ x := by
  rw [Bindings.contains, Option.isSome_iff_exists, everSet_iff]
  exact exists_congr fun v => h.bound_iff

theorem get?_bindings_eq_none_iff (h : Made os s) :
    (s.bindings σ).get? x = none ↔ ¬ EverSet os σ x := by
  rw [← h.contains_iff, Bindings.contains, Option.not_isSome_iff_eq_none]

/-- A look-up finds what was last bound in the first scope of the chain where the name was ever
bound. -/
theorem get?_eq_some_iff (h : Made os s) :
    s.get? σ x = some v ↔ ∃ front τ back, s.chain σ = front ++ τ :: back ∧ LastSet os τ x v ∧
      ∀ ρ ∈ front, ¬ EverSet os ρ x := by
  rw [get?, List.findSome?_eq_some_iff]
  simp only [h.bound_iff, h.get?_bindings_eq_none_iff]

theorem get?_eq_none_iff (h : Made os s) :
    s.get? σ x = none ↔ ∀ τ ∈ s.chain σ, ¬ EverSet os τ x := by
  rw [get?, List.findSome?_eq_none_iff]
  simp only [h.get?_bindings_eq_none_iff]

/-- There are as many entries as names that were bound. -/
theorem size_eq (h : Made os s) : (s.bindings σ).size = {x | EverSet os σ x}.ncard := by
  have hnodup : (s.bindings σ).names.Nodup := by
    refine List.pairwise_map.2 ((s.bindings σ).ordered.imp fun hlt => ?_)
    exact String.ne_of_lt hlt
  have hset : {x | EverSet os σ x} = ↑(s.bindings σ).names.toFinset := by
    ext x
    simp only [Set.mem_ofPred_eq, List.coe_toFinset, everSet_iff, ← h.bound_iff,
      ← Bindings.mem_entries_iff, Bindings.names, List.mem_map, Prod.exists]
    constructor
    · rintro ⟨v, hv⟩
      exact ⟨x, v, hv, rfl⟩
    · rintro ⟨_, v, hv, rfl⟩
      exact ⟨v, hv⟩
  rw [hset, Set.ncard_coe_finset, List.toFinset_card_of_nodup hnodup, Bindings.names,
    List.length_map, Bindings.size]

theorem append_set {e : List ScopeId} {b : Bindings Value} (h : Made os (s.add b e).2)
    (pairs : List (String × Value)) :
    Made (os ++ pairs.map fun pair => .set s.scopes.size pair.1 pair.2)
      (s.add (pairs.foldl (fun b pair => b.insert pair.1 pair.2) b) e).2 := by
  induction pairs generalizing os b with
  | nil => rwa [List.map_nil, List.append_nil]
  | cons pair pairs ih =>
    have hlt : s.scopes.size < (s.add b e).2.scopes.size := by
      rw [size_add]
      exact Nat.lt_succ_self _
    have hset := h.snoc (o := .set s.scopes.size pair.1 pair.2) hlt
    rw [Operation.run, set_add_self] at hset
    rw [List.map_cons, List.append_cons]
    exact ih hset

/-- A call makes its scope inside that of the function, and binds the parameters in it one by
one. -/
theorem enter (h : Made os s) {f : Closure} (hf : f.scope < s.scopes.size) {vs : List Value}
    (henter : Evaluation.enter f vs s = some (.result σ, t)) :
    Made (os ++ .enclose f.scope :: (f.parameters.zip vs).map fun pair => .set σ pair.1 pair.2)
      t := by
  cases henter
  rw [List.append_cons]
  exact append_set (h.snoc (o := .enclose f.scope) hf) _

end Made

/-- Let operations have made a store. Each scope has the link with which it was made, keeps it
whatever is done later, and is linked to a scope made earlier. So from each scope there is a way
outwards, on which no scope comes twice. A look-up finds the value that the name was last bound to
in the first scope on that way in which it was ever bound, and nothing if there is no such scope. In
a scope itself those names are bound that were ever bound there; each is listed once, with the value
it was last bound to, in the order of bytes; and the size is the number of these names. What a call
does to make its scope are such operations too. -/
theorem scopes_keep_last {os : List Operation} {s : Store} (h : Made os s) :
    (List.range s.scopes.size).map s.outer? = os.filterMap Operation.link? ∧
    (∀ os' t, Made (os ++ os') t → ∀ σ < s.scopes.size, t.outer? σ = s.outer? σ) ∧
    (∀ σ τ, s.outer? σ = some τ → τ < σ) ∧
    (∀ σ,
      (∃ chain, s.Outwards σ chain ∧ chain.Pairwise (· > ·) ∧ ∀ x,
        (∀ v, s.get? σ x = some v ↔ ∃ front τ back, chain = front ++ τ :: back ∧
          LastSet os τ x v ∧ ∀ ρ ∈ front, ¬ EverSet os ρ x) ∧
        (s.get? σ x = none ↔ ∀ τ ∈ chain, ¬ EverSet os τ x)) ∧
      (∀ x, (s.bindings σ).contains x = true ↔ EverSet os σ x) ∧
      (∀ x v, (x, v) ∈ (s.bindings σ).entries ↔ LastSet os σ x v) ∧
      ((s.bindings σ).entries.Pairwise fun a b => utf8Bytes a.1 < utf8Bytes b.1) ∧
      (s.bindings σ).size = {x | EverSet os σ x}.ncard ∧
      ((s.bindings σ).isEmpty = true ↔ (s.bindings σ).size = 0)) ∧
    ∀ f vs σ t, f.scope < s.scopes.size → Evaluation.enter f vs s = some (.result σ, t) →
      Made (os ++ .enclose f.scope :: (f.parameters.zip vs).map fun pair => .set σ pair.1 pair.2)
        t := by
  have hnested := h.nested
  refine ⟨h.links_eq, fun os' t ht σ => h.outer?_eq ht, fun σ τ houter => (hnested σ τ houter).1,
    fun σ => ⟨⟨s.chain σ, hnested.outwards σ, ?_, fun x => ⟨fun v => ?_, ?_⟩⟩, fun x => ?_,
      fun x v => ?_, ?_, h.size_eq, ?_⟩, fun f vs σ t hf => h.enter hf⟩
  · exact (hnested.decreasing (hnested.outwards σ)).2
  · exact h.get?_eq_some_iff
  · exact h.get?_eq_none_iff
  · exact h.contains_iff
  · rw [Bindings.mem_entries_iff, h.bound_iff]
  · exact (s.bindings σ).ordered.imp utf8Bytes_lt
  · rw [Bindings.isEmpty, Bindings.size, List.isEmpty_iff, List.length_eq_zero_iff]

/-- A name that is bound again keeps one entry; a scope inside sees what is bound outside later, but
not what it has bound itself. -/
theorem scopes_keep_last_shadowed :
    ∃ s, Made [.root, .enclose 0, .set 1 "x" (.integer 1), .set 0 "x" (.integer 2),
        .set 0 "y" (.integer 3), .set 0 "x" (.integer 4)] s ∧
      s.get? 1 "x" = some (.integer 1) ∧ s.get? 1 "y" = some (.integer 3) ∧
      s.get? 1 "z" = none ∧ (s.bindings 0).contains "z" = false ∧
      ("x", .integer 4) ∈ (s.bindings 0).entries := by
  have hmade := Made.nil.snoc (o := .root) trivial |>.snoc (o := .enclose 0) Nat.zero_lt_one
    |>.snoc (o := .set 1 "x" (.integer 1)) Nat.one_lt_two
    |>.snoc (o := .set 0 "x" (.integer 2)) Nat.zero_lt_two
    |>.snoc (o := .set 0 "y" (.integer 3)) Nat.zero_lt_two
    |>.snoc (o := .set 0 "x" (.integer 4)) Nat.zero_lt_two
  obtain ⟨-, -, -, hscope, -⟩ := scopes_keep_last hmade
  obtain ⟨⟨chain, hchain, -, hlook⟩, -⟩ := hscope 1
  obtain ⟨-, hcontains, hentries, -⟩ := hscope 0
  obtain rfl : chain = [1, 0] := by
    cases hchain with
    | outermost houter => cases houter
    | inside houter hrest =>
      cases houter
      cases hrest with
      | outermost => rfl
      | inside houter => cases houter
  refine ⟨_, hmade, ?_, ?_, ?_, ?_, ?_⟩
  · exact ((hlook "x").1 _).2 ⟨[], 1, [0], rfl, ⟨[_, _], _, rfl, by simp [EverSet]⟩, nofun⟩
  · exact ((hlook "y").1 _).2
      ⟨[1], 0, [], rfl, ⟨[_, _, _, _], _, rfl, by simp [EverSet]⟩, by simp [EverSet]⟩
  · exact (hlook "z").2.2 (by simp [EverSet])
  · exact Bool.eq_false_iff.2 fun h => by simpa [EverSet] using (hcontains "z").1 h
  · exact (hentries _ _).2 ⟨[_, _, _, _, _], [], rfl, by simp [EverSet]⟩

end MonkeyLang.Store
