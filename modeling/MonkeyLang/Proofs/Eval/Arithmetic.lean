import Mathlib.Data.Int.ModEq
import MonkeyLang.Proofs.Eval.Exit

/-!
# Arithmetic wraps around

Integers are signed 64-bit words. `Int64.ofInt` takes a number to the word that it wraps around to,
the one congruent to it modulo 2⁶⁴, and commutes with negation, sums, differences and products. So
it does not matter that the value of every operand wraps around: an expression made of these comes
to the word that its exact value wraps around to (`Expr.Exact.ends`). That is not so of quotients,
which congruent numbers do not share. A division is told of the two words alone that it divides: it
cuts off towards zero, and only the quotient of the smallest word by -1 wraps around. Division by
zero is the one way for an arithmetic expression to fail (`Expr.Arithmetic.ends`).
-/

namespace MonkeyLang

/-- The word is what the number wraps around to: a signed 64-bit integer that is congruent to it. -/
structure Wraps (z : Int) (v : Int64) : Prop where
  smallest_le : -0x8000000000000000 ≤ v.toInt
  le_largest : v.toInt ≤ 0x7FFFFFFFFFFFFFFF
  congruent : v.toInt ≡ z [ZMOD 0x10000000000000000]

instance (z : Int) (v : Int64) : Decidable (Wraps z v) :=
  decidable_of_iff (-0x8000000000000000 ≤ v.toInt ∧ v.toInt ≤ 0x7FFFFFFFFFFFFFFF ∧
      v.toInt ≡ z [ZMOD 0x10000000000000000])
    ⟨fun h => ⟨h.1, h.2.1, h.2.2⟩, fun h => ⟨h.smallest_le, h.le_largest, h.congruent⟩⟩

namespace Expr

/-- An expression of integers, `-` in front of an operand, and `+`, `-` and `*` between two, with
the number that it comes to where nothing wraps around. -/
inductive Exact : Expr → Int → Prop
  | integer (n : Int64) : Exact (.integer n) n.toInt
  | negate {x a} : Exact x a → Exact (.unary .negate x) (-a)
  | add {x y a b} : Exact x a → Exact y b → Exact (.binary .add x y) (a + b)
  | subtract {x y a b} : Exact x a → Exact y b → Exact (.binary .subtract x y) (a - b)
  | multiply {x y a b} : Exact x a → Exact y b → Exact (.binary .multiply x y) (a * b)

/-- An expression of integers, `-` in front of an operand, and `+`, `-`, `*` and `/` between two. -/
inductive Arithmetic : Expr → Prop
  | integer (n : Int64) : Arithmetic (.integer n)
  | negate {x} : Arithmetic x → Arithmetic (.unary .negate x)
  | binary {o x y} : o ∈ [BinaryOperator.add, .subtract, .multiply, .divide] → Arithmetic x →
      Arithmetic y → Arithmetic (.binary o x y)

end Expr

/-! ## Words -/

theorem wraps_ofInt (z : Int) : Wraps z (.ofInt z) where
  smallest_le := Int64.le_toInt _
  le_largest := Int.le_of_lt_add_one (Int64.toInt_lt _)
  congruent := by
    rw [Int64.toInt_ofInt]
    exact Int.bmod_emod

/-- A number wraps around to one word. -/
theorem Wraps.unique {z : Int} {v w : Int64} (hv : Wraps z v) (hw : Wraps z w) : v = w := by
  have hmod : v.toInt % 0x10000000000000000 = w.toInt % 0x10000000000000000 :=
    hv.congruent.trans hw.congruent.symm
  obtain ⟨hv₁, hv₂, -⟩ := hv
  obtain ⟨hw₁, hw₂, -⟩ := hw
  exact Int64.toInt_inj.1 (by omega)

/-- The quotient of two words is their quotient as numbers, cut off and wrapped around. -/
theorem ofInt_tdiv_toInt (a b : Int64) : Int64.ofInt (a.toInt.tdiv b.toInt) = a / b := by
  rw [← Int64.toInt_inj, Int64.toInt_ofInt, Int64.toInt_div]

/-! ## Expressions -/

section
variable {σ : ScopeId} {s t u : Store} {x y : Expr} {l r : Int64}

/-- An exact expression comes to the word that its value wraps around to. -/
theorem Expr.Exact.ends {z : Int} (h : x.Exact z) (σ : ScopeId) (s : Store) :
    (Task.expr σ x).Ends s (.result (.integer (.ofInt z)), s) := by
  induction h with
  | integer n =>
    rw [Int64.ofInt_toInt]
    exact Task.ends_iff.2 ⟨1, rfl⟩
  | negate _ ih =>
    rw [Int64.ofInt_neg]
    exact Task.ends_unary .negate (Task.yields_iff.2 ih)
  | add _ _ hx hy =>
    rw [Int64.ofInt_add]
    exact Task.ends_binary .add (Task.yields_iff.2 hx) (Task.yields_iff.2 hy)
  | subtract _ _ hx hy =>
    rw [Int64.ofInt_sub]
    exact Task.ends_binary .subtract (Task.yields_iff.2 hx) (Task.yields_iff.2 hy)
  | multiply _ _ hx hy =>
    rw [Int64.ofInt_mul]
    exact Task.ends_binary .multiply (Task.yields_iff.2 hx) (Task.yields_iff.2 hy)

/-- Of two integers an arithmetic operator makes an integer, unless it divides by zero. -/
theorem BinaryOperator.apply_arithmetic {o : BinaryOperator}
    (ho : o ∈ [add, subtract, multiply, divide]) (l r : Int64) :
    (∃ v, o.apply (.integer l) (.integer r) = .ok (.integer v)) ∨
      o.apply (.integer l) (.integer r) = .error .divisionByZero := by
  simp only [List.mem_cons, List.not_mem_nil, or_false] at ho
  rcases ho with rfl | rfl | rfl | rfl
  · exact .inl ⟨l + r, rfl⟩
  · exact .inl ⟨l - r, rfl⟩
  · exact .inl ⟨l * r, rfl⟩
  · by_cases hr : r = 0
    · exact .inr (if_pos hr)
    · exact .inl ⟨l / r, if_neg hr⟩

/-- An arithmetic expression comes to an integer or fails by a division by zero, and changes
nothing. -/
theorem Expr.Arithmetic.ends (h : x.Arithmetic) (σ : ScopeId) (s : Store) :
    (∃ v, (Task.expr σ x).Ends s (.result (.integer v), s)) ∨
      (Task.expr σ x).Ends s (.faulted .divisionByZero, s) := by
  induction h with
  | integer n => exact .inl ⟨n, Task.ends_iff.2 ⟨1, rfl⟩⟩
  | negate _ ih =>
    rcases ih with ⟨v, hv⟩ | hfault
    · exact .inl ⟨-v, Task.ends_unary .negate (Task.yields_iff.2 hv)⟩
    · exact .inr (Starts.operand.ends_of_exit rfl (e := .faulted _) hfault)
  | @binary o x y ho _ _ hx hy =>
    rcases hx with ⟨l, hl⟩ | hfault
    · have hyields := Task.yields_iff.2 hl
      rcases hy with ⟨r, hr⟩ | hfault
      · have hends := Task.ends_binary o hyields (Task.yields_iff.2 hr)
        rcases o.apply_arithmetic ho l r with ⟨v, hv⟩ | hzero
        · rw [hv] at hends
          exact .inl ⟨v, hends⟩
        · rw [hzero] at hends
          exact .inr hends
      · exact .inr ((Starts.right hyields).ends_of_exit rfl (e := .faulted _) hfault)
    · exact .inr (Starts.left.ends_of_exit rfl (e := .faulted _) hfault)

/-! ## Division and comparison -/

/-- A division fails exactly if it is one by zero; otherwise it comes to the word that the quotient
wraps around to. -/
theorem ends_divide (hl : (Task.expr σ x).Yields s (.integer l) t)
    (hr : (Task.expr σ y).Yields t (.integer r) u) :
    ((Task.expr σ (.binary .divide x y)).Ends s (.faulted .divisionByZero, u) ↔ r = 0) ∧
      (r ≠ 0 → (Task.expr σ (.binary .divide x y)).Ends s
        (.result (.integer (.ofInt (l.toInt.tdiv r.toInt))), u)) := by
  have hends := Task.ends_binary .divide hl hr
  have hquotient : r ≠ 0 → (Task.expr σ (.binary .divide x y)).Ends s
      (.result (.integer (.ofInt (l.toInt.tdiv r.toInt))), u) := by
    intro hne
    have happly : BinaryOperator.divide.apply (.integer l) (.integer r) = .ok (.integer (l / r)) :=
      if_neg hne
    rw [happly, ← ofInt_tdiv_toInt] at hends
    exact hends
  refine ⟨⟨fun hfault => ?_, fun hzero => ?_⟩, hquotient⟩
  · refine Decidable.byContradiction fun hne => ?_
    cases hfault.unique (hquotient hne)
  · have happly : BinaryOperator.divide.apply (.integer l) (.integer r) = .error .divisionByZero :=
      if_pos hzero
    rw [happly] at hends
    exact hends

/-- A comparison is one of the numbers that the words are. -/
theorem ends_compare (hl : (Task.expr σ x).Yields s (.integer l) t)
    (hr : (Task.expr σ y).Yields t (.integer r) u) :
    (Task.expr σ (.binary .less x y)).Ends s
        (.result (.boolean (decide (l.toInt < r.toInt))), u) ∧
      (Task.expr σ (.binary .greater x y)).Ends s
        (.result (.boolean (decide (r.toInt < l.toInt))), u) := by
  have hless : ∀ a b : Int64, decide (a.toInt < b.toInt) = decide (a < b) := fun a b =>
    decide_eq_decide.2 Int64.lt_iff_toInt_lt.symm
  rw [hless, hless]
  exact ⟨Task.ends_binary .less hl hr, Task.ends_binary .greater hl hr⟩

end

/-- An expression of integers, negations, sums, differences and products comes, in every scope of
every store, to the signed 64-bit integer that its exact value wraps around to. A division of
integers is a division by zero exactly if the second one is zero; otherwise it comes to what their
quotient, cut off towards zero, wraps around to. The operators `<` and `>` compare the integers as
they are. With divisions in it too, an expression of this kind comes to an integer or fails by a
division by zero. -/
theorem arithmetic_wraps :
    (∀ x z, Expr.Exact x z → ∃ v, Wraps z v ∧
      ∀ σ s, (Task.expr σ x).Ends s (.result (.integer v), s)) ∧
    (∀ σ x y s t u l r, (Task.expr σ x).Yields s (.integer l) t →
      (Task.expr σ y).Yields t (.integer r) u →
        ((Task.expr σ (.binary .divide x y)).Ends s (.faulted .divisionByZero, u) ↔ r = 0) ∧
        (r ≠ 0 → ∃ q, Wraps (l.toInt.tdiv r.toInt) q ∧
          (Task.expr σ (.binary .divide x y)).Ends s (.result (.integer q), u)) ∧
        (Task.expr σ (.binary .less x y)).Ends s
          (.result (.boolean (decide (l.toInt < r.toInt))), u) ∧
        (Task.expr σ (.binary .greater x y)).Ends s
          (.result (.boolean (decide (l.toInt > r.toInt))), u)) ∧
    (∀ x, Expr.Arithmetic x → ∀ σ s, (∃ v, (Task.expr σ x).Ends s (.result (.integer v), s)) ∨
      (Task.expr σ x).Ends s (.faulted .divisionByZero, s)) ∧
    Fault.divisionByZero.message = "division by zero" := by
  refine ⟨fun x z hz => ⟨_, wraps_ofInt z, hz.ends⟩, fun σ x y s t u l r hl hr => ?_,
    fun x hx => hx.ends, rfl⟩
  obtain ⟨hzero, hquotient⟩ := ends_divide hl hr
  obtain ⟨hless, hgreater⟩ := ends_compare hl hr
  exact ⟨hzero, fun hne => ⟨_, wraps_ofInt _, hquotient hne⟩, hless, hgreater⟩

/-- The smallest integer is its own negation, twice that is zero, and divided by -1 it stays what it
is. Divided by zero it is an error, in a sum as well. -/
theorem arithmetic_wraps_smallest :
    let smallest : Expr := .integer (-0x8000000000000000)
    let negated : Expr := .unary .negate smallest
    let doubled : Expr := .binary .multiply negated (.integer 2)
    let zero : Expr := .binary .subtract (.integer 5) (.integer 5)
    let sum : Expr := .binary .add (.integer 1) (.binary .divide smallest zero)
    let ends (x : Expr) (v : Value) : Prop := (Task.expr 0 x).Ends .initial (.result v, .initial)
    let fails (x : Expr) : Prop :=
      (Task.expr 0 x).Ends .initial (.faulted .divisionByZero, .initial)
    negated.Exact 0x8000000000000000 ∧ ends negated (.integer (-0x8000000000000000)) ∧
      doubled.Exact 0x10000000000000000 ∧ ends doubled (.integer 0) ∧
      ends (.binary .divide smallest (.integer (-1))) (.integer (-0x8000000000000000)) ∧
      ends (.binary .greater (.integer 1) smallest) (.boolean true) ∧
      fails (.binary .divide smallest zero) ∧ sum.Arithmetic ∧
      ((∃ v, ends sum (.integer v)) ∨ fails sum) := by
  intro smallest negated doubled zero sum ends fails
  obtain ⟨hexact, hoperands, harithmetic, -⟩ := arithmetic_wraps
  have hnegated : negated.Exact 0x8000000000000000 := .negate (.integer _)
  have hdoubled : doubled.Exact 0x10000000000000000 := .multiply hnegated (.integer 2)
  have hzero : zero.Exact 0 := .subtract (.integer 5) (.integer 5)
  have hends : ∀ {x : Expr} {z : Int} {v : Int64}, x.Exact z → Wraps z v → ends x (.integer v) := by
    intro x z v hx hv
    obtain ⟨w, hw, hends⟩ := hexact x z hx
    rw [hv.unique hw]
    exact hends 0 .initial
  have hyields : ∀ {x : Expr} {z : Int} {v : Int64}, x.Exact z → Wraps z v →
      (Task.expr 0 x).Yields .initial (.integer v) .initial := fun hx hv =>
    Task.yields_iff.2 (hends hx hv)
  have hsmallest := hyields (.integer (-0x8000000000000000)) (v := -0x8000000000000000) (by decide)
  have hone := hyields (.integer 1) (v := 1) (by decide)
  have hminusOne := hyields (.integer (-1)) (v := -1) (by decide)
  have hnothing := hyields hzero (v := 0) (by decide)
  obtain ⟨-, hquotient, -⟩ := hoperands _ _ _ _ _ _ _ _ hsmallest hminusOne
  obtain ⟨q, hq, hends'⟩ := hquotient (by decide)
  obtain rfl : q = -0x8000000000000000 := hq.unique (by decide)
  obtain ⟨-, -, -, hgreater⟩ := hoperands _ _ _ _ _ _ _ _ hone hsmallest
  have hsum : sum.Arithmetic :=
    .binary (by decide) (.integer 1) (.binary (by decide) (.integer _)
      (.binary (by decide) (.integer 5) (.integer 5)))
  refine ⟨hnegated, hends hnegated (by decide), hdoubled, hends hdoubled (by decide), hends',
    hgreater, ?_, hsum, harithmetic sum hsum 0 .initial⟩
  exact (hoperands _ _ _ _ _ _ _ _ hsmallest hnothing).1.2 rfl

end MonkeyLang
