import Mathlib.Data.List.Forall2
import Mathlib.Order.Basic
import MonkeyLang.Proofs.Eval.Invariant

/-!
# Stores up to renaming

Which place a scope has in a store and which identity an object was dealt makes no difference to a
program: it can ask whether two objects are the same one, and no more. A `Renaming` pairs off
scopes and identities of one store with those of another, one to one. Under it values correspond
(`Renaming.Alike`), bindings (`AlikeBindings`) and scopes (`AlikeScopes`), and it relates two stores
if all scopes that it pairs off correspond (`Renaming.Relates`).

What one step does to both stores keeps them related: a name is bound in scopes that correspond, or
a scope or an identity is new on either side and the two make one more pair.
-/

namespace MonkeyLang

/-! ## Pairs of numbers, one to one -/

section
variable {R : Nat → Nat → Prop} {m n : Nat}

/-- The relation and one pair more. -/
def withPair (R : Nat → Nat → Prop) (m n a b : Nat) : Prop := R a b ∨ a = m ∧ b = n

theorem le_withPair : R ≤ withPair R m n := fun _ _ h => .inl h

theorem withPair_self : withPair R m n m n := .inr ⟨rfl, rfl⟩

/-- A pair beyond all others keeps a relation one to one. -/
theorem biUnique_withPair (hR : Relator.BiUnique R) (hlt : ∀ {a b}, R a b → a < m ∧ b < n) :
    Relator.BiUnique (withPair R m n) := by
  constructor
  · rintro a a' b (h | ⟨rfl, rfl⟩) (h' | ⟨rfl, hb⟩)
    · exact hR.1 h h'
    · exact absurd hb (Nat.ne_of_lt (hlt h).2)
    · exact absurd rfl (Nat.ne_of_lt (hlt h').2)
    · rfl
  · rintro a b b' (h | ⟨rfl, rfl⟩) (h' | ⟨ha, rfl⟩)
    · exact hR.2 h h'
    · exact absurd ha (Nat.ne_of_lt (hlt h).1)
    · exact absurd rfl (Nat.ne_of_lt (hlt h').1)
    · rfl

theorem lt_of_withPair (hlt : ∀ {a b}, R a b → a < m ∧ b < n) {a b : Nat}
    (h : withPair R m n a b) : a < m + 1 ∧ b < n + 1 := by
  rcases h with h | ⟨rfl, rfl⟩
  · exact ⟨Nat.lt_succ_of_lt (hlt h).1, Nat.lt_succ_of_lt (hlt h).2⟩
  · exact ⟨Nat.lt_succ_self _, Nat.lt_succ_self _⟩

end

/-- Options that are related in one way are so in another, if what is in them is. -/
theorem rel_imp {α β : Type} {S T : α → β → Prop} {x : Option α} {y : Option β}
    (h : Option.Rel S x y) (hST : ∀ a b, x = some a → S a b → T a b) : Option.Rel T x y := by
  cases h with
  | none => exact .none
  | some hab => exact .some (hST _ _ rfl hab)

/-- What is found first in lists that are related is related. -/
theorem rel_findSome? {α β : Type} {R : Nat → Nat → Prop} {S : α → β → Prop} {f : Nat → Option α}
    {g : Nat → Option β} (hfg : ∀ a b, R a b → Option.Rel S (f a) (g b)) {as bs : List Nat}
    (h : List.Forall₂ R as bs) : Option.Rel S (as.findSome? f) (bs.findSome? g) := by
  have hfound := List.rel_filterMap (R := R) (P := S) hfg h
  rw [← List.head?_filterMap, ← List.head?_filterMap]
  generalize as.filterMap f = found, bs.filterMap g = found' at hfound ⊢
  cases hfound with
  | nil => exact .none
  | cons hv _ => exact .some hv

/-! ## Renamings -/

/-- Scopes and identities of one store paired off with those of another, one to one. -/
structure Renaming where
  scopes : ScopeId → ScopeId → Prop
  identities : Identity → Identity → Prop
  scopes_biUnique : Relator.BiUnique scopes
  identities_biUnique : Relator.BiUnique identities

namespace Renaming

/-- A renaming is below another one if that has all its pairs. -/
instance : Preorder Renaming := Preorder.lift fun r => (r.scopes, r.identities)

variable {r r' : Renaming} {σ τ : ScopeId}

/-- The renaming with one more pair of scopes, beyond all others. -/
def withScopes (r : Renaming) (σ τ : ScopeId) (h : ∀ {a b}, r.scopes a b → a < σ ∧ b < τ) :
    Renaming :=
  { r with
    scopes := withPair r.scopes σ τ
    scopes_biUnique := biUnique_withPair r.scopes_biUnique h }

/-- The renaming with one more pair of identities, beyond all others. -/
def withIdentities (r : Renaming) (i j : Identity)
    (h : ∀ {a b}, r.identities a b → a < i ∧ b < j) : Renaming :=
  { r with
    identities := withPair r.identities i j
    identities_biUnique := biUnique_withPair r.identities_biUnique h }

theorem le_withScopes (h : ∀ {a b}, r.scopes a b → a < σ ∧ b < τ) : r ≤ r.withScopes σ τ h :=
  ⟨le_withPair, le_refl r.identities⟩

theorem le_withIdentities {i j : Identity} (h : ∀ {a b}, r.identities a b → a < i ∧ b < j) :
    r ≤ r.withIdentities i j h :=
  ⟨le_refl r.scopes, le_withPair⟩

/-- The renaming the other way round. -/
def symm (r : Renaming) : Renaming where
  scopes τ σ := r.scopes σ τ
  identities j i := r.identities i j
  scopes_biUnique := ⟨fun _ _ _ h h' => r.scopes_biUnique.2 h h', r.scopes_biUnique.1.flip⟩
  identities_biUnique :=
    ⟨fun _ _ _ h h' => r.identities_biUnique.2 h h', r.identities_biUnique.1.flip⟩

/-! ## What corresponds under a renaming -/

/-- Addresses of objects that correspond: those that are there from the start, each to itself, and
those that have been made, as their identities do. -/
inductive AlikeAddresses (R : Identity → Identity → Prop) : Address → Address → Prop
  | null : AlikeAddresses R .null .null
  | boolean (b) : AlikeAddresses R (.boolean b) (.boolean b)
  | builtin (b) : AlikeAddresses R (.builtin b) (.builtin b)
  | made {i j} : R i j → AlikeAddresses R (.made i) (.made j)

/-- Values that differ at most in addresses and captured scopes, and in these as the renaming
says. -/
inductive Alike (r : Renaming) : Value → Value → Prop
  | integer (n) : Alike r (.integer n) (.integer n)
  | string (contents) : Alike r (.string contents) (.string contents)
  | null {a a'} : AlikeAddresses r.identities a a' → Alike r (.null a) (.null a')
  | boolean {b a a'} : AlikeAddresses r.identities a a' →
      Alike r (.boolean ⟨b, a⟩) (.boolean ⟨b, a'⟩)
  | builtin {b a a'} : AlikeAddresses r.identities a a' →
      Alike r (.builtin ⟨b, a⟩) (.builtin ⟨b, a'⟩)
  | function {i j xs body σ τ} : r.identities i j → r.scopes σ τ →
      Alike r (.function ⟨i, xs, body, σ⟩) (.function ⟨j, xs, body, τ⟩)
  | error {i j message} : r.identities i j → Alike r (.error i message) (.error j message)

/-- The same names are bound, and to values that correspond. -/
def AlikeBindings (r : Renaming) (b c : Bindings Value) : Prop :=
  ∀ x, Option.Rel r.Alike (b.get? x) (c.get? x)

/-- Bindings correspond, and the scopes around them one by one. -/
structure AlikeScopes (r : Renaming) (a b : Scope) : Prop where
  bindings : r.AlikeBindings a.bindings b.bindings
  enclosing : List.Forall₂ r.scopes a.enclosing b.enclosing

/-- Values that are what they contain are alike under every renaming. -/
theorem alike_of_isPlain (r : Renaming) {v : Value} (h : v.IsPlain) : r.Alike v v := by
  cases h with
  | integer n => exact .integer n
  | string contents => exact .string contents
  | null => exact .null .null
  | boolean b => exact .boolean (.boolean b)
  | builtin b => exact .builtin (.builtin b)

theorem AlikeAddresses.mono {R R' : Identity → Identity → Prop} (h : R ≤ R') {a b : Address}
    (ha : AlikeAddresses R a b) : AlikeAddresses R' a b := by
  cases ha with
  | made hi => exact .made (h _ _ hi)
  | null | boolean _ | builtin _ => constructor

theorem AlikeAddresses.symm {a b : Address} (h : AlikeAddresses r.identities a b) :
    AlikeAddresses r.symm.identities b a := by
  cases h with
  | made hi => exact .made hi
  | null | boolean _ | builtin _ => constructor

theorem Alike.mono (h : r ≤ r') {v w : Value} (hv : r.Alike v w) : r'.Alike v w := by
  cases hv with
  | integer n => exact .integer n
  | string contents => exact .string contents
  | null ha => exact .null (ha.mono h.2)
  | boolean ha => exact .boolean (ha.mono h.2)
  | builtin ha => exact .builtin (ha.mono h.2)
  | function hi hσ => exact .function (h.2 _ _ hi) (h.1 _ _ hσ)
  | error hi => exact .error (h.2 _ _ hi)

theorem Alike.symm {v w : Value} (h : r.Alike v w) : r.symm.Alike w v := by
  cases h with
  | integer n => exact .integer n
  | string contents => exact .string contents
  | null ha => exact .null ha.symm
  | boolean ha => exact .boolean ha.symm
  | builtin ha => exact .builtin ha.symm
  | function hi hσ => exact .function hi hσ
  | error hi => exact .error hi

theorem AlikeBindings.mono (h : r ≤ r') {b c : Bindings Value} (hb : r.AlikeBindings b c) :
    r'.AlikeBindings b c := fun x => rel_imp (hb x) fun _ _ _ hv => hv.mono h

theorem AlikeScopes.mono (h : r ≤ r') {a b : Scope} (ha : r.AlikeScopes a b) :
    r'.AlikeScopes a b := ⟨ha.bindings.mono h, ha.enclosing.imp h.1⟩

theorem AlikeScopes.symm {a b : Scope} (h : r.AlikeScopes a b) : r.symm.AlikeScopes b a where
  bindings x := by
    have hx := h.bindings x
    generalize a.bindings.get? x = v, b.bindings.get? x = w at hx ⊢
    cases hx with
    | none => exact .none
    | some hv => exact .some hv.symm
  enclosing := h.enclosing.flip

theorem AlikeBindings.insert {b c : Bindings Value} (hb : r.AlikeBindings b c) (x : String)
    {v w : Value} (hv : r.Alike v w) : r.AlikeBindings (b.insert x v) (c.insert x w) := by
  intro y
  rw [Bindings.get?_insert, Bindings.get?_insert]
  split
  · exact .some hv
  · exact hb y

/-- Parameters are bound to arguments that correspond. -/
theorem alikeBindings_bindParameters {vs ws : List Value} (h : List.Forall₂ r.Alike vs ws)
    (xs : List String) :
    r.AlikeBindings (Evaluation.bindParameters xs vs) (Evaluation.bindParameters xs ws) := by
  have hpairs : List.Forall₂ (fun p q => p.1 = q.1 ∧ r.Alike p.2 q.2) (xs.zip vs) (xs.zip ws) := by
    induction h generalizing xs with
    | nil => simp
    | cons hv _ ih =>
      cases xs with
      | nil => exact .nil
      | cons x xs => exact .cons ⟨rfl, hv⟩ (ih xs)
  refine List.rel_foldl (P := r.AlikeBindings) ?_ (fun _ => .none) hpairs
  rintro b c hb ⟨x, v⟩ ⟨_, w⟩ ⟨rfl, hv⟩
  exact hb.insert x hv

/-! ## Stores that correspond -/

/-- The renaming pairs off what there is in two stores, and scopes that correspond. -/
structure Relates (r : Renaming) (s t : Store) : Prop where
  scope_lt : ∀ {σ τ}, r.scopes σ τ → σ < s.scopes.size ∧ τ < t.scopes.size
  identity_lt : ∀ {i j}, r.identities i j → i < s.nextIdentity ∧ j < t.nextIdentity
  alike : ∀ {σ τ}, r.scopes σ τ → r.AlikeScopes (s.scope σ) (t.scope τ)

namespace Relates

variable {s t : Store}

/-- Scopes that correspond see scopes that correspond. -/
theorem chain (h : r.Relates s t) (hσ : r.scopes σ τ) :
    List.Forall₂ r.scopes (s.chain σ) (t.chain τ) :=
  .cons hσ (h.alike hσ).enclosing

/-- A name has values that correspond, seen from scopes that do. -/
theorem get? (h : r.Relates s t) (hσ : r.scopes σ τ) (x : String) :
    Option.Rel r.Alike (s.get? σ x) (t.get? τ x) :=
  rel_findSome? (R := r.scopes) (fun _ _ hτ => (h.alike hτ).bindings x) (h.chain hσ)

theorem set (h : r.Relates s t) (hσ : r.scopes σ τ) (x : String) {v w : Value}
    (hv : r.Alike v w) : r.Relates (s.set σ x v) (t.set τ x w) where
  scope_lt hσ' := by
    rw [Store.size_set, Store.size_set]
    exact h.scope_lt hσ'
  identity_lt := h.identity_lt
  alike {σ' τ'} hσ' := by
    have heq : σ' = σ ↔ τ' = τ := Relator.rel_eq r.scopes_biUnique hσ' hσ
    have hscope := h.alike hσ'
    by_cases hself : σ' = σ
    · obtain rfl := hself
      obtain rfl := heq.1 rfl
      rw [Store.scope_set_self x v (h.scope_lt hσ).1, Store.scope_set_self x w (h.scope_lt hσ).2]
      exact ⟨hscope.bindings.insert x hv, hscope.enclosing⟩
    · rw [Store.scope_set_of_ne x v hself, Store.scope_set_of_ne x w (mt heq.2 hself)]
      exact hscope

theorem add (h : r.Relates s t) {b c : Bindings Value} {e e' : List ScopeId}
    (hb : r.AlikeBindings b c) (he : List.Forall₂ r.scopes e e') :
    (r.withScopes s.scopes.size t.scopes.size h.scope_lt).Relates (s.add b e).2 (t.add c e').2 where
  scope_lt hσ := by
    rw [Store.size_add, Store.size_add]
    exact lt_of_withPair h.scope_lt hσ
  identity_lt := h.identity_lt
  alike hσ := by
    refine AlikeScopes.mono (le_withScopes h.scope_lt) ?_
    rcases hσ with hσ | ⟨rfl, rfl⟩
    · rw [Store.scope_add_of_ne b e (Nat.ne_of_lt (h.scope_lt hσ).1),
        Store.scope_add_of_ne c e' (Nat.ne_of_lt (h.scope_lt hσ).2)]
      exact h.alike hσ
    · rw [Store.scope_add_self, Store.scope_add_self]
      exact ⟨hb, he⟩

theorem fresh (h : r.Relates s t) :
    (r.withIdentities s.nextIdentity t.nextIdentity h.identity_lt).Relates s.fresh.2 t.fresh.2 where
  scope_lt := h.scope_lt
  identity_lt hi := lt_of_withPair h.identity_lt hi
  alike hσ := (h.alike hσ).mono (le_withIdentities h.identity_lt)

end Relates

/-! ## What operators and builtins compute -/

/-- Addresses are the same one on either side or on neither. -/
theorem AlikeAddresses.beq_eq {r : Renaming} {a b a' b' : Address}
    (h : AlikeAddresses r.identities a b) (h' : AlikeAddresses r.identities a' b') :
    (a == a') = (b == b') := by
  rw [Bool.eq_iff_iff, beq_iff_eq, beq_iff_eq]
  cases h with
  | made hi =>
    cases h' with
    | made hi' =>
      rw [Address.made.injEq, Address.made.injEq]
      exact Relator.rel_eq r.identities_biUnique hi hi'
    | null | boolean _ | builtin _ => simp
  | null | boolean _ | builtin _ => cases h' <;> simp

namespace Alike

variable {v w v' w' : Value}

theorem type_eq (h : r.Alike v w) : v.type = w.type := by
  cases h <;> rfl

theorem isTruthy_eq (h : r.Alike v w) : v.isTruthy = w.isTruthy := by
  cases h <;> rfl

theorem address? (h : r.Alike v w) :
    Option.Rel (AlikeAddresses r.identities) v.address? w.address? := by
  cases h with
  | integer _ | string _ => exact .none
  | null ha | boolean ha | builtin ha => exact .some ha
  | function hi | error hi => exact .some (.made hi)

theorem sameAddress_eq (h : r.Alike v w) (h' : r.Alike v' w') :
    v.sameAddress v' = w.sameAddress w' := by
  have ha := h.address?
  have ha' := h'.address?
  unfold Value.sameAddress
  generalize v.address? = a, w.address? = b at ha ⊢
  generalize v'.address? = a', w'.address? = b' at ha' ⊢
  cases ha with
  | none => rfl
  | some ha =>
    cases ha' with
    | none => rfl
    | some ha' => exact ha.beq_eq ha'

/-- Programs see the same equality. -/
theorem same_eq (h : r.Alike v w) (h' : r.Alike v' w') : v.same v' = w.same w' := by
  have haddress := h.sameAddress_eq h'
  cases h with
  | string contents =>
    cases h' with
    | string contents' => rfl
    | _ => exact haddress
  | _ => exact haddress

theorem unary_eq (h : r.Alike v w) (o : UnaryOperator) : o.apply v = o.apply w := by
  cases h <;> cases o <;> rfl

theorem binary_eq (h : r.Alike v w) (h' : r.Alike v' w') (o : BinaryOperator) :
    o.apply v v' = o.apply w w' := by
  have hsame := h.same_eq h'
  have htype := h.type_eq
  have htype' := h'.type_eq
  -- Of operands that are not two numbers or two strings an operator sees no more than their types
  -- and equality.
  cases h with
  | integer n =>
    cases h' with
    | integer n' => rfl
    | _ => cases o <;> simp_all [BinaryOperator.apply]
  | string contents =>
    cases h' with
    | string contents' => rfl
    | _ => cases o <;> simp_all [BinaryOperator.apply]
  | _ => cases o <;> simp_all [BinaryOperator.apply]

theorem builtin_eq {vs ws : List Value} (h : List.Forall₂ r.Alike vs ws) (b : Builtin) :
    b.call vs = b.call ws := by
  cases b
  cases h with
  | nil => rfl
  | cons hv h =>
    cases h with
    | nil => cases hv <;> rfl
    | cons _ h => simp only [Builtin.call, List.length_cons, h.length_eq]

end Alike

end Renaming

end MonkeyLang
