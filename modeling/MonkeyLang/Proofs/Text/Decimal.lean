import MonkeyLang.Text.Decimal

/-!
# Decimal numbers are read back

An integer that is not negative is written as digits, and the value of these digits is the integer.
A negative one is written with a minus in front of the digits of its absolute value.
-/

namespace MonkeyLang.Decimal

theorem value_eq_ofDigitChars (digits : List Char) : value digits = Nat.ofDigitChars 10 digits 0 :=
  Nat.ofDigitChars_eq_foldl.symm

/-- An integer that is not negative is written as the digits of a natural number. -/
theorem toList_render {n : Int64} (h : 0 ≤ n.toInt) :
    (render n).toList = Nat.toDigits 10 n.toInt.toNat := by
  obtain ⟨k, hk⟩ := Int.eq_ofNat_of_zero_le h
  rw [render, hk, Int.toString_eq_repr]
  exact Nat.toList_repr

theorem render_ne_nil {n : Int64} (h : 0 ≤ n.toInt) : (render n).toList ≠ [] := by
  rw [toList_render h]
  exact Nat.toDigits_ne_nil

theorem isDigit_of_mem_render {n : Int64} (h : 0 ≤ n.toInt) {c : Char}
    (hc : c ∈ (render n).toList) : c.isDigit = true := by
  rw [toList_render h] at hc
  exact Nat.isDigit_of_mem_toDigits (by decide) (by decide) hc

/-- What is written has the value it was written for. -/
theorem value_render {n : Int64} (h : 0 ≤ n.toInt) : value (render n).toList = n.toInt.toNat := by
  rw [toList_render h, value_eq_ofDigitChars, Nat.ofDigitChars_ten_toDigits]

theorem toNat_le_largest (n : Int64) : n.toInt.toNat ≤ largest := by
  have := n.toInt_lt
  simp only [largest]
  omega

theorem ofNat_toNat {n : Int64} (h : 0 ≤ n.toInt) : Int64.ofNat n.toInt.toNat = n := by
  rw [← Int64.ofInt_eq_ofNat, Int.toNat_of_nonneg h, Int64.ofInt_toInt]

/-- A number that is small enough stays what it is. -/
theorem toInt_ofNat_of_le {k : Nat} (h : k ≤ largest) : (Int64.ofNat k).toInt = k := by
  simp only [largest] at h
  rw [Int64.toInt_ofNat_of_lt]
  omega

/-! ## Numerals -/

/-- A text of decimal digits, of which there is one at least. -/
structure IsNumeral (text : String) : Prop where
  ne_empty : text ≠ ""
  isDigit : ∀ c ∈ text.toList, c.isDigit = true

/-- The number that the digits of a text stand for. -/
def number (text : String) : Nat := Nat.ofDigitChars 10 text.toList 0

theorem value_toList (text : String) : value text.toList = number text :=
  value_eq_ofDigitChars text.toList

theorem int64?_of_lt {text : String} (h : largest < number text) : int64? text.toList = none := by
  rw [int64?, if_neg]
  rw [value_toList]
  omega

theorem isNumeral_toString (n : Nat) : IsNumeral (toString n) where
  ne_empty h := Nat.toDigits_ne_nil (Nat.toList_repr.symm.trans (congrArg String.toList h))
  isDigit c hc := by
    rw [Nat.toString_eq_repr, Nat.toList_repr] at hc
    exact Nat.isDigit_of_mem_toDigits (by decide) (by decide) hc

/-- What is written for a number stands for it. -/
theorem number_toString (n : Nat) : number (toString n) = n := by
  rw [number, Nat.toString_eq_repr, Nat.toList_repr, Nat.ofDigitChars_ten_toDigits]

/-- Nothing but zero is written with a zero at the front. -/
theorem head?_toDigits {n : Nat} (h : n ≠ 0) : (Nat.toDigits 10 n).head? ≠ some '0' := by
  induction n using Nat.strongRecOn with
  | ind n ih =>
    by_cases hlt : n < 10
    · have hdigit : ∀ k < 10, k ≠ 0 → some k.digitChar ≠ some '0' := by decide
      rw [Nat.toDigits_of_lt_base hlt]
      exact hdigit n hlt h
    · have hhead := ih (n / 10) (by omega) (by omega)
      obtain ⟨c, cs, hcons⟩ := List.exists_cons_of_ne_nil (@Nat.toDigits_ne_nil (n / 10) 10)
      rw [Nat.toDigits_of_base_le (by decide) (Nat.not_lt.1 hlt), hcons]
      rwa [hcons] at hhead

theorem eq_zero_of_head_toString {n : Nat} (h : (toString n).toList.head? = some '0') : n = 0 := by
  rw [Nat.toString_eq_repr, Nat.toList_repr] at h
  exact Decidable.byContradiction fun hn => head?_toDigits hn h

theorem render_of_nonneg {n : Int64} (h : 0 ≤ n.toInt) : render n = toString n.toInt.toNat := by
  rw [render, Int.toString_eq_repr, Int.repr_eq_if, if_pos h, Nat.toString_eq_repr]

/-- A negative integer is written with a minus in front of its absolute value. -/
theorem render_of_neg {n : Int64} (h : n.toInt < 0) :
    render n = "-" ++ toString (-n.toInt).toNat := by
  rw [render, Int.toString_eq_repr, Int.repr_eq_if, if_neg (by omega), Nat.toString_eq_repr]

/-- A number that is small enough is written as it is. -/
theorem render_ofNat_of_le {k : Nat} (h : k ≤ largest) : render (.ofNat k) = toString k := by
  have hk := toInt_ofNat_of_le h
  rw [render_of_nonneg (by omega), hk, Int.toNat_natCast]

end MonkeyLang.Decimal
