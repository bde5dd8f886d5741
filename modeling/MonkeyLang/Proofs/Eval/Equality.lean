import Mathlib.Data.Set.Function
import MonkeyLang.Proofs.Eval.ErrorFree
import MonkeyLang.Proofs.Eval.Exit

/-!
# Equality of values

The language compares objects by their addresses, which says nothing by itself: that there is no
other `null` than the one that programs share, and that no two functions have the same identity, is
a matter of all that has happened before. So a `Ledger` is kept of the functions that have been made
(`bookkeeping`). Their identities are distinct and have been dealt out, and nothing is ever bound,
passed, or the value of an expression but these functions, numbers, strings and the objects that are
shared. A function that is made takes an identity that none in the ledger has, and is put there.

So an address tells what stands there (`Value.Known.eq_of_address?`). With that, `==` is what it
should be of any two values that a program comes across: integers and strings are compared by what
they contain, `null`, booleans and builtins by what they are, and a function is equal to itself
alone (`equality_tells_apart`).
-/

namespace MonkeyLang

open Evaluation

/-- Values that are equal: two integers or strings with the same contents, twice the same boolean,
twice `null` and twice the same builtin, wherever they stand, and the same function twice. -/
inductive Value.Equal : Value → Value → Prop
  | integer (n : Int64) : Equal (.integer n) (.integer n)
  | string (contents : String) : Equal (.string contents) (.string contents)
  | boolean (b : Bool) (a a' : Address) : Equal (.boolean ⟨b, a⟩) (.boolean ⟨b, a'⟩)
  | null (a a' : Address) : Equal (.null a) (.null a')
  | function (f : Closure) : Equal (.function f) (.function f)
  | builtin (b : Builtin) (a a' : Address) : Equal (.builtin ⟨b, a⟩) (.builtin ⟨b, a'⟩)

/-- If the value is `null`, a boolean or a builtin, then it is the one that programs share. -/
def Value.IsShared : Value → Prop
  | .null a => a = .null
  | .boolean b => b = .boolean b.content
  | .builtin f => f = .builtin f.content
  | .integer _ | .string _ | .function _ | .error _ _ => True

/-- Of values with a property the operators `==` and `!=` answer as they should: neither fails,
`!=` is the opposite of `==`, and `==` holds of values that are equal. So it is an equivalence, and
does not hold of values of different types. And there is one object only for `null`, one for either
boolean and one for a builtin. -/
structure Discerned (V : Value → Prop) : Prop where
  shared : ∀ v, V v → v.IsShared
  answers : ∀ l r, V l → V r → ∃ answer : Bool,
    BinaryOperator.equal.apply l r = .ok (.boolean answer) ∧
      BinaryOperator.notEqual.apply l r = .ok (.boolean !answer) ∧ (answer = true ↔ l.Equal r)
  differ : ∀ l r, V l → V r → l.type ≠ r.type →
    BinaryOperator.equal.apply l r = .ok (.boolean false)
  equivalence : Equivalence fun l r : { v // V v } =>
    BinaryOperator.equal.apply l.val r.val = .ok (.boolean true)

/-- The values at hand: given ones, all that a scope of the store binds, and those that can be
written down or are there from the start. -/
inductive AtHand (vs : List Value) (s : Store) : Value → Prop
  | given {v} : v ∈ vs → AtHand vs s v
  | bound {σ x v} : (s.bindings σ).get? x = some v → AtHand vs s v
  | plain {v} : v.IsPlain → AtHand vs s v

/-- What a call is made of and with. -/
def Task.values : Task → List Value
  | .call f vs => f :: vs
  | .expr _ _ | .stmt _ _ | .block _ _ => []

/-! ## What the operators answer -/

/-- What `==` answers: two integers are compared by what they contain, all else as objects are. -/
def Value.equals : Value → Value → Bool
  | .integer a, .integer b => a == b
  | l, r => l.same r

namespace BinaryOperator

theorem apply_equal (l r : Value) : equal.apply l r = .ok (.boolean (l.equals r)) := by
  cases l <;> cases r <;> rfl

theorem apply_notEqual (l r : Value) : notEqual.apply l r = .ok (.boolean !(l.equals r)) := by
  cases l <;> cases r <;> rfl

end BinaryOperator

namespace Value

theorem sameAddress_comm (l r : Value) : l.sameAddress r = r.sameAddress l := by
  unfold sameAddress
  rcases l.address? with _ | a <;> rcases r.address? with _ | b <;>
    first | rfl | exact Bool.beq_comm

theorem equals_comm (l r : Value) : l.equals r = r.equals l := by
  have haddress := sameAddress_comm l r
  cases l <;> cases r <;> first | exact haddress | exact Bool.beq_comm

/-- Values are equal to themselves. -/
theorem equals_self (v : Value) : v.equals v = true := by
  cases v <;> exact beq_self_eq_true _

/-- Values that stand at one address have that address. -/
theorem exists_address? {l r : Value} (h : l.sameAddress r = true) :
    ∃ a, l.address? = some a ∧ r.address? = some a := by
  unfold sameAddress at h
  split at h
  · next a b ha hb =>
    obtain rfl := beq_iff_eq.1 h
    exact ⟨a, ha, hb⟩
  · cases h

end Value

/-! ## The ledger -/

/-- Functions that have been made, told apart by their identities. -/
structure Ledger where
  made : Set Closure
  distinct : made.InjOn Closure.identity

namespace Ledger

/-- A ledger is below another one that has all its functions. -/
instance : Preorder Ledger where
  le C D := C.made ⊆ D.made
  le_refl _ _ hf := hf
  le_trans _ _ _ h h' _ hf := h' (h hf)

/-- The ledger of a store in which no function has been made. -/
def empty : Ledger := ⟨∅, Set.injOn_empty _⟩

/-- One function more, with an identity above all others. -/
def insert (C : Ledger) (f : Closure) (h : ∀ g ∈ C.made, g.identity < f.identity) : Ledger where
  made := {g | g = f ∨ g ∈ C.made}
  distinct := by
    rintro g (rfl | hg) g' (rfl | hg') heq
    · rfl
    · exact absurd heq.symm (Nat.ne_of_lt (h g' hg'))
    · exact absurd heq (Nat.ne_of_lt (h g hg))
    · exact C.distinct hg hg' heq

theorem le_insert (C : Ledger) (f : Closure) (h : ∀ g ∈ C.made, g.identity < f.identity) :
    C ≤ C.insert f h := fun _ hg => .inr hg

end Ledger

namespace Value

variable {C D : Ledger} {v l r : Value}

/-- The value is what it contains, or a function in the ledger. -/
inductive Known (C : Ledger) : Value → Prop
  | plain {w} : w.IsPlain → Known C w
  | function {f} : f ∈ C.made → Known C (.function f)

theorem Known.mono (h : C ≤ D) (hv : v.Known C) : v.Known D := by
  cases hv with
  | plain hv => exact .plain hv
  | function hf => exact .function (h hf)

theorem Known.isShared (h : v.Known C) : v.IsShared := by
  cases h with
  | plain hv => cases hv <;> trivial
  | function _ => trivial

/-- Values that are what they contain stand where others do only if they are the same. -/
theorem IsPlain.eq_of_address? (hl : l.IsPlain) (hr : r.IsPlain) {a : Address}
    (hla : l.address? = some a) (hra : r.address? = some a) : l = r := by
  cases hl with
  | integer _ | string _ => cases hla
  | null | boolean _ | builtin _ =>
    cases hla
    cases hr <;> cases hra
    rfl

/-- Of values that are what they contain, none stands where a function does. -/
theorem IsPlain.address?_ne (h : v.IsPlain) (i : Identity) : v.address? ≠ some (.made i) := by
  cases h <;> nofun

/-- An address tells what stands there. -/
theorem Known.eq_of_address? (hl : l.Known C) (hr : r.Known C) {a : Address}
    (hla : l.address? = some a) (hra : r.address? = some a) : l = r := by
  cases hl with
  | plain hl =>
    cases hr with
    | plain hr => exact hl.eq_of_address? hr hla hra
    | function _ =>
      cases hra
      exact absurd hla (hl.address?_ne _)
  | @function f hf =>
    cases hla
    cases hr with
    | plain hr => exact absurd hra (hr.address?_ne _)
    | @function g hg =>
      have hidentity : g.identity = f.identity := Address.made.inj (Option.some.inj hra)
      exact congrArg _ (C.distinct hf hg hidentity.symm)

/-- Of known values `==` holds of one and the same only. -/
theorem Known.equals_iff_eq (hl : l.Known C) (hr : r.Known C) : l.equals r = true ↔ l = r := by
  constructor
  · intro h
    unfold equals same at h
    split at h
    · exact congrArg _ (beq_iff_eq.1 h)
    · split at h
      · exact congrArg _ (beq_iff_eq.1 h)
      · obtain ⟨a, hla, hra⟩ := exists_address? h
        exact hl.eq_of_address? hr hla hra
  · rintro rfl
    exact l.equals_self

/-- Functions are equal only if they are the same one. -/
theorem Equal.closure_eq {f g : Closure} (h : Equal (.function f) (.function g)) : f = g := by
  cases h
  rfl

/-- Known values are equal only if they are one and the same, since there are no others like those
that are shared. -/
theorem Known.equal_iff_eq (hl : l.Known C) (hr : r.Known C) : l.Equal r ↔ l = r := by
  constructor
  · intro h
    have hlshared := hl.isShared
    have hrshared := hr.isShared
    cases h with
    | integer _ | string _ | function _ => rfl
    | boolean b a a' | builtin b a a' =>
      exact congrArg _ (hlshared.trans hrshared.symm)
    | null a a' =>
      obtain rfl : a = .null := hlshared
      obtain rfl : a' = .null := hrshared
      rfl
  · rintro rfl
    cases hl with
    | plain hl => cases hl <;> constructor
    | function _ => constructor

end Value

/-- The operators tell known values apart. -/
theorem Discerned.of_known {C : Ledger} {V : Value → Prop} (hV : ∀ v, V v → v.Known C) :
    Discerned V := by
  have hequal : ∀ l r, V l → V r →
      (BinaryOperator.equal.apply l r = .ok (.boolean true) ↔ l = r) := by
    intro l r hl hr
    rw [BinaryOperator.apply_equal, ← (hV l hl).equals_iff_eq (hV r hr)]
    cases l.equals r <;> simp [Object.boolean]
  refine ⟨fun v hv => (hV v hv).isShared, fun l r hl hr => ?_, fun l r hl hr htype => ?_,
    ⟨fun v => ?_, fun {l r} h => ?_, fun {l r q} h h' => ?_⟩⟩
  · exact ⟨l.equals r, BinaryOperator.apply_equal l r, BinaryOperator.apply_notEqual l r,
      ((hV l hl).equals_iff_eq (hV r hr)).trans ((hV l hl).equal_iff_eq (hV r hr)).symm⟩
  · rw [BinaryOperator.apply_equal]
    cases hequals : l.equals r with
    | false => rfl
    | true =>
      have heq := ((hV l hl).equals_iff_eq (hV r hr)).1 hequals
      exact absurd (congrArg Value.type heq) htype
  · exact (hequal _ _ v.2 v.2).2 rfl
  · exact (hequal _ _ r.2 l.2).2 ((hequal _ _ l.2 r.2).1 h).symm
  · exact (hequal _ _ l.2 q.2).2
      (((hequal _ _ l.2 r.2).1 h).trans ((hequal _ _ r.2 q.2).1 h'))

/-! ## Bookkeeping -/

namespace Store

/-- The identities in the ledger have been dealt out, and no other function is bound. -/
structure Accounted (C : Ledger) (s : Store) : Prop where
  dealt : ∀ f ∈ C.made, f.identity < s.nextIdentity
  known : ∀ {σ x v}, (s.bindings σ).get? x = some v → v.Known C

variable {C : Ledger} {s t : Store}

theorem initial_accounted : Store.initial.Accounted .empty where
  dealt _ hf := hf.elim
  known {σ x v} h := by
    cases σ with
    | zero | succ => cases h

theorem Accounted.fresh (h : s.Accounted C) : s.fresh.2.Accounted C :=
  ⟨fun f hf => Nat.lt_succ_of_lt (h.dealt f hf), h.known⟩

/-- A function that takes the next identity is put into the ledger. -/
theorem Accounted.insert (h : s.Accounted C) (xs : List String) (body : List Stmt) (σ : ScopeId) :
    s.fresh.2.Accounted (C.insert ⟨s.nextIdentity, xs, body, σ⟩ h.dealt) where
  dealt g hg := by
    rcases hg with rfl | hg
    · exact Nat.lt_succ_self _
    · exact Nat.lt_succ_of_lt (h.dealt g hg)
  known hv := (h.known hv).mono (C.le_insert _ h.dealt)

end Store

/-- A ledger is kept of the functions that are made. -/
def bookkeeping : Tracking Ledger where
  store := Store.Accounted
  value C v := v.Known C
  scope _ _ := True
  value_mono := .mono
  scope_mono _ h := h
  plain _ _ := .plain
  bound hs := hs.known
  set {C s σ v} x hs _ hv := by
    refine ⟨C, le_refl C, hs.dealt, fun hw => ?_⟩
    rcases Store.bound_of_set hw with rfl | hw
    · exact hv
    · exact hs.known hw
  closure {C s σ} xs body hs _ :=
    ⟨_, C.le_insert _ hs.dealt, hs.insert xs body σ, .function (.inl rfl)⟩
  enter {C s f vs} hs _ hvs := by
    refine ⟨C, le_refl C, ⟨hs.dealt, fun hw => ?_⟩, trivial⟩
    rcases Store.bound_of_add hw with hw | hw
    · exact hvs _ (Evaluation.mem_of_bindParameters hw)
    · exact hs.known hw

namespace Store.Accounted

variable {C : Ledger} {s t u : Store}

theorem leads (h : s.Accounted C) (hst : s.Leads t) : ∃ D, C ≤ D ∧ t.Accounted D :=
  Tracking.leads (T := bookkeeping) (fun _ _ => trivial)
    (fun D _ ht => ⟨D, le_refl D, Accounted.fresh ht⟩) h hst

/-- What an expression makes is put into the ledger. -/
theorem yields (h : s.Accounted C) {σ : ScopeId} {e : Expr} {v : Value}
    (hv : (Task.expr σ e).Yields s v t) : ∃ D, C ≤ D ∧ t.Accounted D ∧ v.Known D :=
  Tracking.of_yields (T := bookkeeping) h (by exact trivial) hv

/-- What is at hand is in the ledger, if what is given is. -/
theorem known_of_atHand (h : s.Accounted C) {vs : List Value} (hvs : ∀ v ∈ vs, v.Known C)
    {v : Value} (hv : AtHand vs s v) : v.Known C := by
  cases hv with
  | given hv => exact hvs v hv
  | bound hv => exact h.known hv
  | plain hv => exact .plain hv

theorem discerned (h : s.Accounted C) {vs : List Value} (hvs : ∀ v ∈ vs, v.Known C) :
    Discerned (AtHand vs s) := .of_known fun _ hv => h.known_of_atHand hvs hv

end Store.Accounted

/-- A call is made of what is in the ledger and with what is. -/
theorem Task.known_of_bookkeeping {C : Ledger} {b : Task} (h : bookkeeping.task C b) :
    ∀ v ∈ b.values, v.Known C := by
  cases b with
  | call f vs => exact List.forall_mem_cons.2 h
  | expr _ _ | stmt _ _ | block _ _ => exact fun _ h => nomatch h

theorem bookkeeping_of_isCall {a : Task} (ha : a.isCall = false) (C : Ledger) :
    bookkeeping.task C a := by
  cases a with
  | call f vs => cases ha
  | expr _ _ | stmt _ _ | block _ _ => trivial

/-! ## Operands and functions -/

section
variable {σ : ScopeId} {s t u : Store}

/-- An operator is applied to the values of its operands. -/
theorem ends_binary {o : BinaryOperator} {x y : Expr} {l r v : Value}
    (hl : (Task.expr σ x).Yields s l t) (hr : (Task.expr σ y).Yields t r u)
    (hv : o.apply l r = .ok v) : (Task.expr σ (.binary o x y)).Ends s (.result v, u) := by
  have hends := Task.ends_binary o hl hr
  rw [hv] at hends
  exact hends

/-- A function is made with the identity that is dealt out next. -/
theorem function_of_yields {xs : List String} {body : List Stmt} {v : Value}
    (h : (Task.expr σ (.function xs body)).Yields s v t) :
    v = .function ⟨s.nextIdentity, xs, body, σ⟩ ∧ t = s.fresh.2 := by
  obtain ⟨_ | n, h⟩ := h
  · cases h
  · cases h
    exact ⟨rfl, rfl⟩

/-- A function that is made is not equal to anything that was there before. -/
theorem Store.Accounted.same_function {C : Ledger} (h : s.Accounted C) {v : Value}
    (hv : v.Known C) (xs : List String) (body : List Stmt) (σ : ScopeId) :
    v.equals (.function ⟨s.nextIdentity, xs, body, σ⟩) = false := by
  refine Bool.eq_false_iff.2 fun hequals => ?_
  have hbelow : ∀ f ∈ C.made, f.identity < s.nextIdentity := h.dealt
  have heq := (hv.mono (C.le_insert _ hbelow)).equals_iff_eq (.function (.inl rfl)) |>.1 hequals
  subst heq
  cases hv with
  | plain hv => cases hv
  | function hf => exact absurd rfl (Nat.ne_of_lt (hbelow _ hf))

end

/-- Neither of two functions that are made one after the other is equal to the other one. -/
theorem same_of_yields {σ τ : ScopeId} {xs ys : List String} {body body' : List Stmt}
    {s s' t t' : Store} {l r : Value} (hl : (Task.expr σ (.function xs body)).Yields s l s')
    (hst : s'.Grows t) (hr : (Task.expr τ (.function ys body')).Yields t r t') :
    l.equals r = false := by
  obtain ⟨rfl, rfl⟩ := function_of_yields hl
  obtain ⟨rfl, rfl⟩ := function_of_yields hr
  exact beq_false_of_ne fun h => Nat.ne_of_lt hst.identity_le (Address.made.inj h)

/-! ## At every point of every evaluation -/

namespace Store.Accounted

variable {C : Ledger} {s t : Store} {b : Task}

/-- What a task ends with, at hand with all that was at hand before. -/
theorem discerned_of_ends (h : s.Accounted C) (hb : bookkeeping.task C b) {v : Value}
    (hv : b.Ends s (.result v, t) ∨ b.Ends s (.left v, t)) :
    Discerned (AtHand (v :: b.values) t) := by
  obtain ⟨D, hCD, ht, hD⟩ : ∃ D, C ≤ D ∧ t.Accounted D ∧ v.Known D := by
    rcases hv with hv | hv <;>
      obtain ⟨n, hrun⟩ := Task.ends_iff.1 hv <;>
      exact Tracking.keeps_run n hb h _ t hrun
  refine ht.discerned (List.forall_mem_cons.2 ⟨hD, fun w hw => ?_⟩)
  exact (Task.known_of_bookkeeping hb w hw).mono hCD

/-- The operands of `==`, at hand with all that was at hand before, and its answer. -/
theorem discerned_operands (h : s.Accounted C) {vs : List Value} (hvs : ∀ v ∈ vs, v.Known C)
    {σ : ScopeId} {x y : Expr} {l r : Value} {u : Store} (hl : (Task.expr σ x).Yields s l t)
    (hr : (Task.expr σ y).Yields t r u) :
    Discerned (AtHand (l :: r :: vs) u) ∧ ∃ answer : Bool,
      (Task.expr σ (.binary .equal x y)).Ends s (.result (.boolean answer), u) ∧
        (Task.expr σ (.binary .notEqual x y)).Ends s (.result (.boolean !answer), u) ∧
        (answer = true ↔ l.Equal r) := by
  -- What the left operand has made is still in the ledger when the right one has ended.
  obtain ⟨D, hCD, ht, hlD⟩ := h.yields hl
  obtain ⟨E, hDE, hu, hrE⟩ := ht.yields hr
  have hdiscerned : Discerned (AtHand (l :: r :: vs) u) := by
    refine hu.discerned (List.forall_mem_cons.2 ⟨hlD.mono hDE, List.forall_mem_cons.2 ⟨hrE, ?_⟩⟩)
    exact fun v hv => (hvs v hv).mono (hCD.trans hDE)
  obtain ⟨answer, hequal, hnotEqual, hiff⟩ :=
    hdiscerned.answers l r (.given (by simp)) (.given (by simp))
  exact ⟨hdiscerned, answer, ends_binary hl hr hequal, ends_binary hl hr hnotEqual, hiff⟩

end Store.Accounted

/-- Let programs have led from the initial store to a store `s`. At every point of every evaluation
from there all values at hand that are `null`, booleans or builtins are those that are shared, and
`==` and `!=` answer as they should of all values at hand; so it is when a task that is started
there has ended, with the value it has ended with and with those from before; and so it is of the
operators, with the values of their operands. A function that is made is not equal to anything that
was at hand. And no two functions that are made one after the other are equal. -/
theorem equality_tells_apart {s : Store} (hs : Store.initial.Leads s) :
    (∀ a b t, a.isCall = false → Reached (a, s) (b, t) →
      Discerned (AtHand b.values t) ∧
      (∀ v u, b.Ends t (.result v, u) ∨ b.Ends t (.left v, u) →
        Discerned (AtHand (v :: b.values) u)) ∧
      (∀ σ x y l u r w, (Task.expr σ x).Yields t l u → (Task.expr σ y).Yields u r w →
        Discerned (AtHand (l :: r :: b.values) w) ∧ ∃ answer : Bool,
          (Task.expr σ (.binary .equal x y)).Ends t (.result (.boolean answer), w) ∧
            (Task.expr σ (.binary .notEqual x y)).Ends t (.result (.boolean !answer), w) ∧
            (answer = true ↔ l.Equal r)) ∧
      ∀ σ xs body v f u, AtHand b.values t v → (Task.expr σ (.function xs body)).Yields t f u →
        BinaryOperator.equal.apply v f = .ok (.boolean false) ∧
          BinaryOperator.equal.apply f v = .ok (.boolean false)) ∧
    ∀ σ τ xs ys body body' t t' u u' f g, (Task.expr σ (.function xs body)).Yields t f t' →
      t'.Grows u → (Task.expr τ (.function ys body')).Yields u g u' →
        BinaryOperator.equal.apply f g = .ok (.boolean false) ∧
          BinaryOperator.equal.apply g f = .ok (.boolean false) := by
  obtain ⟨C, -, hC⟩ := Store.initial_accounted.leads hs
  have hfalse : ∀ l r : Value, l.equals r = false →
      BinaryOperator.equal.apply l r = .ok (.boolean false) ∧
        BinaryOperator.equal.apply r l = .ok (.boolean false) := by
    intro l r h
    rw [BinaryOperator.apply_equal, BinaryOperator.apply_equal, r.equals_comm, h]
    exact ⟨rfl, rfl⟩
  refine ⟨fun a b t ha hreach => ?_, fun σ τ xs ys body body' t t' u u' f g hf hgrows hg =>
    hfalse f g (same_of_yields hf hgrows hg)⟩
  obtain ⟨D, -, ht, hb⟩ :=
    Tracking.reached (T := bookkeeping) hreach hC (bookkeeping_of_isCall ha C)
  have hvalues : ∀ v ∈ b.values, v.Known D := Task.known_of_bookkeeping hb
  refine ⟨ht.discerned hvalues, fun v u => ht.discerned_of_ends hb,
    fun σ x y l u r w => ht.discerned_operands hvalues, fun σ xs body v f u hv hf => ?_⟩
  obtain ⟨rfl, rfl⟩ := function_of_yields hf
  exact hfalse v _ (ht.same_function (ht.known_of_atHand hvalues hv) xs body σ)

/-- Two functions of one text, which are not equal, and one that is equal to itself. -/
theorem equality_tells_apart_text :
    let body : List Stmt := [.expression (.identifier "x")]
    let f : Value := .function ⟨0, ["x"], body, 0⟩
    let g : Value := .function ⟨1, ["x"], body, 0⟩
    let s : Store := (Store.initial.fresh.2.set 0 "f" f).fresh.2.set 0 "g" g
    let equal (x y : String) : Task := .expr 0 (.binary .equal (.identifier x) (.identifier y))
    Store.initial.Leads s ∧ Discerned (AtHand [] s) ∧
      (equal "f" "g").Ends s (.result (.boolean false), s) ∧
      (equal "f" "f").Ends s (.result (.boolean true), s) := by
  intro body f g s equal
  have hleads : Store.initial.Leads s := .program (n := 9) (σ := 0) (v := .null)
    (p := ⟨[.binding "f" (.function ["x"] body), .binding "g" (.function ["x"] body)]⟩) .refl rfl
  have hf : (Task.expr 0 (.identifier "f")).Yields s f s := ⟨1, rfl⟩
  have hg : (Task.expr 0 (.identifier "g")).Yields s g s := ⟨1, rfl⟩
  obtain ⟨hhand, -, hoperands, -⟩ :=
    (equality_tells_apart hleads).1 (equal "f" "g") (equal "f" "g") s rfl .refl
  obtain ⟨-, answer, hends, -, hiff⟩ := hoperands _ _ _ _ _ _ _ hf hg
  obtain ⟨-, answer', hends', -, hiff'⟩ := hoperands _ _ _ _ _ _ _ hf hf
  have hdiffer : ¬ f.Equal g := by
    intro h
    have hidentity : (0 : Identity) = 1 := congrArg Closure.identity h.closure_eq
    cases hidentity
  obtain rfl : answer = false := Bool.eq_false_iff.2 fun h => hdiffer (hiff.1 h)
  obtain rfl : answer' = true := hiff'.2 (.function _)
  exact ⟨hleads, hhand, hends, hends'⟩

end MonkeyLang
