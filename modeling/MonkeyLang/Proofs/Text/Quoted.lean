import Mathlib.Tactic.SplitIfs
import MonkeyLang.Text.Bytes
import MonkeyLang.Text.Quoted

/-!
# The end of a string literal, in bytes

A literal ends at the first quote that no backslash protects. That quote may be looked for among the
bytes of the text as well as among its characters (`closing_utf8Encode`): quotes and backslashes are
bytes of their own, since all bytes of a longer encoding are larger than those of ASCII, and where a
backslash protects the first byte of a longer one it need not protect the others.
-/

namespace MonkeyLang

/-- A byte of ASCII in the encoding of a character is the whole of it. -/
theorem utf8EncodeChar_of_mem {c : Char} {b : UInt8} (hb : b.toNat ≤ 0x7F)
    (h : b ∈ String.utf8EncodeChar c) :
    String.utf8EncodeChar c = [b] ∧ c.val.toNat = b.toNat := by
  simp only [String.utf8EncodeChar] at h ⊢
  split_ifs at h ⊢ with h₁ h₂ h₃
  · obtain rfl := List.mem_singleton.1 h
    refine ⟨rfl, ?_⟩
    rw [UInt8.toNat_ofNat']
    omega
  all_goals
    -- Each byte of a longer encoding has a base of at least 0x80 added.
    simp only [List.mem_cons, List.not_mem_nil, or_false] at h
    rcases h with rfl | rfl | rfl | rfl <;> rw [UInt8.toNat_ofNat'] at hb <;> omega

/-- A character of ASCII is no byte of another one. -/
theorem notMem_utf8EncodeChar {c d : Char} (hd : d.val.toNat ≤ 0x7F) (h : c ≠ d) :
    UInt8.ofNat d.val.toNat ∉ String.utf8EncodeChar c := by
  intro hmem
  have hbyte : (UInt8.ofNat d.val.toNat).toNat = d.val.toNat := by
    rw [UInt8.toNat_ofNat']
    omega
  have hsame := (utf8EncodeChar_of_mem (Nat.le_trans (Nat.le_of_eq hbyte) hd) hmem).2
  exact h (Char.ext (UInt32.toNat_inj.1 (hsame.trans hbyte)))

namespace Quoted

/-- The number of bytes behind the opening quote up to the one that closes the literal, this one
included, or of all of them if there is none. A byte may be protected by a backslash in front. -/
def closing : Bool → List UInt8 → Nat
  | _, [] => 0
  | true, _ :: bytes => closing false bytes + 1
  | false, b :: bytes => if b = 0x22 then 1 else closing (b == 0x5C) bytes + 1

theorem closing_append {front : List UInt8} (h : ∀ b ∈ front, b ≠ 0x22 ∧ b ≠ 0x5C)
    (back : List UInt8) : closing false (front ++ back) = front.length + closing false back := by
  induction front with
  | nil => rw [List.nil_append, List.length_nil, Nat.zero_add]
  | cons b front ih =>
    obtain ⟨⟨hq, hb⟩, hfront⟩ := List.forall_mem_cons.1 h
    rw [List.cons_append, closing, if_neg hq, beq_eq_false_iff_ne.2 hb, ih hfront, List.length_cons]
    omega

/-- A character that is neither a quote nor a backslash is passed over. -/
theorem closing_utf8EncodeChar {c : Char} (hq : c ≠ '"') (hb : c ≠ '\\') (bytes : List UInt8) :
    closing false (String.utf8EncodeChar c ++ bytes) = c.utf8Size + closing false bytes := by
  rw [closing_append, String.length_utf8EncodeChar]
  intro b hmem
  constructor
  · rintro rfl
    exact notMem_utf8EncodeChar (d := '"') (by decide) hq hmem
  · rintro rfl
    exact notMem_utf8EncodeChar (d := '\\') (by decide) hb hmem

/-- A character that is protected is passed over, whatever it is. -/
theorem closing_protected (c : Char) (bytes : List UInt8) :
    closing true (String.utf8EncodeChar c ++ bytes) = c.utf8Size + closing false bytes := by
  obtain ⟨b, bs, hc⟩ := List.exists_cons_of_ne_nil (String.utf8EncodeChar_ne_nil (c := c))
  have hlarge : ∀ d ∈ bs, 0x7F < d.toNat := by
    intro d hd
    refine Nat.not_le.1 fun hle => ?_
    have hmem : d ∈ String.utf8EncodeChar c := hc ▸ List.mem_cons_of_mem b hd
    have hall := (utf8EncodeChar_of_mem hle hmem).1
    rw [hc] at hall
    rw [(List.cons.inj hall).2] at hd
    cases hd
  rw [← String.length_utf8EncodeChar, hc, List.cons_append, closing, closing_append,
    List.length_cons]
  · omega
  · intro d hd
    constructor <;> rintro rfl <;> exact absurd (hlarge _ hd) (by decide)

/-- The literal ends at the byte that closes it. -/
theorem closing_utf8Encode (text : List Char) :
    closing false (text.flatMap String.utf8EncodeChar) = byteLength (split text).1 := by
  fun_induction split text with
  | case1 => rfl
  | case2 rest => rfl
  | case3 c rest ih =>
    rw [List.flatMap_cons, List.flatMap_cons]
    have hslash : String.utf8EncodeChar '\\' = [0x5C] := rfl
    rw [hslash, List.singleton_append, closing, if_neg (by decide), beq_self_eq_true,
      closing_protected, ih, byteLength_cons, byteLength_cons]
    have hsize : '\\'.utf8Size = 1 := rfl
    omega
  | case4 c rest hq hb ih =>
    by_cases hc : c = '\\'
    · subst hc
      cases rest with
      | nil => rfl
      | cons d rest => exact absurd rfl (hb d rest rfl)
    · rw [List.flatMap_cons, closing_utf8EncodeChar hq hc, ih, byteLength_cons]

end Quoted

end MonkeyLang
