/-!
# Decimal numbers

`Decimal.value` is the number that a string of digits stands for, leading zeros and all, and
`Decimal.int64?` the same number as a signed 64-bit integer where it is small enough to be one.
-/

namespace MonkeyLang.Decimal

/-- The value of a decimal digit. -/
def digit (c : Char) : Nat := c.toNat - '0'.toNat

/-- The number that the digits stand for. -/
def value (digits : List Char) : Nat := digits.foldl (fun n c => 10 * n + digit c) 0

/-- The largest number a signed 64-bit integer can be. -/
def largest : Nat := 0x7FFFFFFFFFFFFFFF

/-- The number that the digits stand for, unless it is too large for a signed 64-bit integer. -/
def int64? (digits : List Char) : Option Int64 :=
  if value digits ≤ largest then some (.ofNat (value digits)) else none

/-- A signed 64-bit integer in decimal, with a minus in front if it is negative. -/
def render (n : Int64) : String := toString n.toInt

end MonkeyLang.Decimal
