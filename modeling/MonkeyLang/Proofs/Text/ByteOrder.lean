import Mathlib.Tactic.SplitIfs
import MonkeyLang.Text.Bytes

/-!
# The order of bytes

Strings are ordered by code points, and so are their bytes in UTF-8 (`utf8Bytes_lt`). The first byte
of a longer encoding is larger. Of encodings of one length each byte carries a digit of the code
point, the highest one first, so the first bytes that differ are ordered as the code points are.
-/

namespace MonkeyLang

/-- The bytes of a text in UTF-8. -/
def utf8Bytes (text : String) : List UInt8 := text.toByteArray.data.toList

theorem utf8Bytes_eq (text : String) :
    utf8Bytes text = text.toList.flatMap String.utf8EncodeChar := by
  rw [utf8Bytes, ← String.ofList_toList (s := text), String.toByteArray_ofList, List.utf8Encode,
    List.toList_data_toByteArray, String.toList_ofList]

theorem byte_cons_lt {a b : Nat} {xs ys : List UInt8} (hb : b < 256)
    (h : a < b ∨ a = b ∧ xs < ys) : UInt8.ofNat a :: xs < UInt8.ofNat b :: ys := by
  rw [List.cons_lt_cons_iff]
  rcases h with h | ⟨rfl, h⟩
  · refine .inl ?_
    rw [UInt8.lt_iff_toNat_lt, UInt8.toNat_ofNat', UInt8.toNat_ofNat']
    omega
  · exact .inr ⟨rfl, h⟩

/-- Bytes that carry the digits of numbers, added to a base, are ordered as the numbers are. -/
theorem digit_cons_lt {v w m radix base : Nat} {xs ys : List UInt8}
    (hlt : v % (m * radix) < w % (m * radix)) (h : v % m < w % m → xs < ys)
    (hpos : 0 < radix := by decide) (hbase : radix + base ≤ 256 := by decide) :
    UInt8.ofNat (v / m % radix + base) :: xs < UInt8.ofNat (w / m % radix + base) :: ys := by
  have hdigit := Nat.mod_lt (w / m) hpos
  rw [Nat.mod_mul, Nat.mod_mul] at hlt
  refine byte_cons_lt (by omega) ?_
  rcases Nat.lt_trichotomy (v / m % radix) (w / m % radix) with hd | hd | hd
  · exact .inl (Nat.add_lt_add_right hd _)
  · rw [hd] at hlt ⊢
    exact .inr ⟨rfl, h (Nat.lt_of_add_lt_add_right hlt)⟩
  · -- A number with the larger digit here would not be the smaller one.
    have hle : m * (w / m % radix) + m ≤ m * (v / m % radix) := Nat.mul_le_mul_left m hd
    have hm : 0 < m := by
      refine Nat.pos_of_ne_zero ?_
      rintro rfl
      simp at hd
    have := Nat.mod_lt w hm
    omega

/-- The bytes of a smaller character are smaller, whatever follows them. -/
theorem utf8EncodeChar_lt {c d : Char} (h : c < d) (front back : List UInt8) :
    String.utf8EncodeChar c ++ front < String.utf8EncodeChar d ++ back := by
  have hlt : c.val.toNat < d.val.toNat := UInt32.lt_iff_toNat_lt.1 h
  have hd : d.val.toNat < 0x110000 := by
    rcases d.valid with h | h
    · exact Nat.lt_trans h (by decide)
    · exact h.2
  simp only [String.utf8EncodeChar]
  generalize c.val.toNat = v, d.val.toNat = w at hlt hd
  have hlast : ∀ {xs ys}, v % 64 < w % 64 →
      UInt8.ofNat (v % 64 + 0x80) :: xs < UInt8.ofNat (w % 64 + 0x80) :: ys := fun h =>
    byte_cons_lt (by omega) (.inl (Nat.add_lt_add_right h _))
  -- The second character takes as many bytes as the first one, or more.
  by_cases h₁ : v ≤ 0x7F
  · rw [if_pos h₁]
    split_ifs <;> exact byte_cons_lt (by omega) (.inl (by omega))
  rw [if_neg h₁, if_neg (show ¬ w ≤ 0x7F by omega)]
  by_cases h₂ : v ≤ 0x7FF
  · rw [if_pos h₂]
    split_ifs
    · exact digit_cons_lt (by omega) hlast
    all_goals exact byte_cons_lt (by omega) (.inl (by omega))
  rw [if_neg h₂, if_neg (show ¬ w ≤ 0x7FF by omega)]
  by_cases h₃ : v ≤ 0xFFFF
  · rw [if_pos h₃]
    split_ifs
    · exact digit_cons_lt (by omega) fun h => digit_cons_lt h hlast
    · exact byte_cons_lt (by omega) (.inl (by omega))
  · rw [if_neg h₃, if_neg (show ¬ w ≤ 0xFFFF by omega)]
    exact digit_cons_lt (by omega) fun h => digit_cons_lt h fun h => digit_cons_lt h hlast

theorem flatMap_utf8EncodeChar_lt {text text' : List Char} (h : text < text') :
    text.flatMap String.utf8EncodeChar < text'.flatMap String.utf8EncodeChar := by
  induction h with
  | @nil c rest =>
    rw [List.flatMap_nil, List.flatMap_cons]
    obtain ⟨b, bs, hb⟩ := List.exists_cons_of_ne_nil (String.utf8EncodeChar_ne_nil (c := c))
    rw [hb]
    exact List.nil_lt_cons _ _
  | @rel c rest d rest' h =>
    rw [List.flatMap_cons, List.flatMap_cons]
    exact utf8EncodeChar_lt h _ _
  | @cons c rest rest' _ ih =>
    rw [List.flatMap_cons, List.flatMap_cons]
    exact List.append_left_lt ih

/-- A smaller string has smaller bytes. -/
theorem utf8Bytes_lt {a b : String} (h : a < b) : utf8Bytes a < utf8Bytes b := by
  rw [utf8Bytes_eq, utf8Bytes_eq]
  exact flatMap_utf8EncodeChar_lt h

end MonkeyLang
