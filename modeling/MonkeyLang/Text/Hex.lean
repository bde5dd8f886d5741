/-!
# Hexadecimal numbers

The digits of a number to base sixteen, in lower case, and the value of such digits.
-/

namespace MonkeyLang.Hex

/-- The number as hexadecimal digits, without leading zeros. -/
def digits (n : Nat) : List Char := Nat.toDigits 16 n

/-- The number as at least `width` hexadecimal digits, with zeros in front. -/
def padded (width n : Nat) : List Char :=
  List.replicate (width - (digits n).length) '0' ++ digits n

/-- The value of a hexadecimal digit in either case. -/
def digit? (c : Char) : Option Nat :=
  if '0' ≤ c ∧ c ≤ '9' then some (c.toNat - '0'.toNat)
  else if 'a' ≤ c ∧ c ≤ 'f' then some (c.toNat - 'a'.toNat + 10)
  else if 'A' ≤ c ∧ c ≤ 'F' then some (c.toNat - 'A'.toNat + 10)
  else none

theorem digits_of_lt {n : Nat} (h : n < 16) : digits n = [n.digitChar] :=
  Nat.toDigits_of_lt_base h

theorem digits_of_le {n : Nat} (h : 16 ≤ n) :
    digits n = digits (n / 16) ++ [(n % 16).digitChar] :=
  Nat.toDigits_of_base_le (by decide) h

/-- All digits of a number are those of numbers below sixteen. -/
theorem exists_digitChar_of_mem {n : Nat} {c : Char} (h : c ∈ digits n) :
    ∃ k < 16, c = k.digitChar := by
  induction n using Nat.strongRecOn with
  | ind n ih =>
    rcases Nat.lt_or_ge n 16 with hlt | hle
    · rw [digits_of_lt hlt, List.mem_singleton] at h
      exact ⟨n, hlt, h⟩
    · rw [digits_of_le hle, List.mem_append, List.mem_singleton] at h
      rcases h with h | h
      · exact ih (n / 16) (by omega) h
      · exact ⟨n % 16, by omega, h⟩

/-- A digit has the value that it was written for. -/
theorem digit?_digitChar {k : Nat} (h : k < 16) : digit? k.digitChar = some k := by
  revert k
  decide

end MonkeyLang.Hex
