import MonkeyLang.Json.Basic
import MonkeyLang.Text.Decimal
import MonkeyLang.Text.Hex

/-!
# Reading JSON

`parse?` reads a text that holds one JSON value and nothing else but blanks. The functions below
it read from the front of a list of characters and answer with what is left; those that call each
other count down a bound on the depth of calls, for which the length of the text is enough.
-/

namespace MonkeyLang.Json

namespace Read

/-- Blanks may stand around every value and every sign. -/
def isBlank (c : Char) : Bool := c == ' ' || c == '\t' || c == '\r' || c == '\n'

/-- The text without the blanks at its front. -/
def skipBlanks (text : List Char) : List Char := text.dropWhile isBlank

/-- The value of four hexadecimal digits, and the text behind them. -/
def hex4? : List Char → Option (Nat × List Char)
  | a :: b :: c :: d :: rest => do
    let a ← Hex.digit? a
    let b ← Hex.digit? b
    let c ← Hex.digit? c
    let d ← Hex.digit? d
    return (((a * 16 + b) * 16 + c) * 16 + d, rest)
  | _ => none

/-- The character that an escape stands for, given the text behind its backslash and its `u`. A
character beyond U+FFFF is written as two halves. -/
def unicode? (text : List Char) : Option (Char × List Char) := do
  let (unit, rest) ← hex4? text
  if 0xD800 ≤ unit ∧ unit < 0xDC00 then
    match rest with
    | '\\' :: 'u' :: rest =>
      let (low, rest) ← hex4? rest
      if 0xDC00 ≤ low ∧ low < 0xE000 then
        return (Char.ofNat (0x10000 + (unit - 0xD800) * 0x400 + (low - 0xDC00)), rest)
      else none
    | _ => none
  else if 0xDC00 ≤ unit ∧ unit < 0xE000 then none
  else return (Char.ofNat unit, rest)

/-- The character that a short escape stands for. -/
def shortEscape? : Char → Option Char
  | '"' => some '"'
  | '\\' => some '\\'
  | '/' => some '/'
  | 'n' => some '\n'
  | 'r' => some '\r'
  | 't' => some '\t'
  | 'b' => some '\x08'
  | 'f' => some '\x0c'
  | _ => none

/-- The first character of a string's text and what is behind it, `none` standing for the closing
quote. -/
def character? : List Char → Option (Option Char × List Char)
  | [] => none
  | '"' :: rest => some (none, rest)
  | '\\' :: 'u' :: rest => (unicode? rest).map fun (c, rest) => (some c, rest)
  | '\\' :: c :: rest => (shortEscape? c).map fun c => (some c, rest)
  | c :: rest => if c = '\\' ∨ c.toNat < 0x20 then none else some (some c, rest)

/-- The characters of a string up to its closing quote. -/
def characters? : Nat → List Char → Option (List Char × List Char)
  | 0, _ => none
  | n + 1, text =>
    match character? text with
    | none => none
    | some (none, rest) => some ([], rest)
    | some (some c, rest) => (characters? n rest).map fun (cs, rest) => (c :: cs, rest)

/-- A string, given the text behind its opening quote. -/
def string? (text : List Char) : Option (String × List Char) :=
  (characters? (text.length + 1) text).map fun (cs, rest) => (String.ofList cs, rest)

/-- The digits at the front of a text, of which there is at least one. -/
def digits? (text : List Char) : Option (List Char × List Char) :=
  if (text.takeWhile Char.isDigit).isEmpty then none
  else some (text.takeWhile Char.isDigit, text.dropWhile Char.isDigit)

/-- The digits of an integer: a zero, or digits that do not begin with one. -/
def integerDigits? : List Char → Option (List Char × List Char)
  | '0' :: rest => some (['0'], rest)
  | text => digits? text

/-- The part of a number behind its point, the point included; nothing where there is no point. -/
def fraction? : List Char → Option (List Char × List Char)
  | '.' :: rest => (digits? rest).map fun (ds, rest) => ('.' :: ds, rest)
  | text => some ([], text)

/-- The exponent of a number; nothing where there is none. -/
def exponent? : List Char → Option (List Char × List Char)
  | c :: rest =>
    if c = 'e' ∨ c = 'E' then
      match rest with
      | '+' :: rest => (digits? rest).map fun (ds, rest) => (c :: '+' :: ds, rest)
      | '-' :: rest => (digits? rest).map fun (ds, rest) => (c :: '-' :: ds, rest)
      | rest => (digits? rest).map fun (ds, rest) => (c :: ds, rest)
    else some ([], c :: rest)
  | [] => some ([], [])

/-- A number without its sign. A zero with a minus is no integer. -/
def unsigned? (negative : Bool) (text : List Char) : Option (Json × List Char) := do
  let (whole, rest) ← integerDigits? text
  let (fraction, rest) ← fraction? rest
  let (exponent, rest) ← exponent? rest
  let n := Decimal.value whole
  if fraction.isEmpty ∧ exponent.isEmpty ∧ ¬ (negative ∧ n = 0) then
    return (int (if negative then -(n : Int) else n), rest)
  else
    let sign := if negative then ['-'] else []
    return (real (String.ofList (sign ++ whole ++ fraction ++ exponent)), rest)

/-- A number. -/
def number? : List Char → Option (Json × List Char)
  | '-' :: rest => unsigned? true rest
  | text => unsigned? false text

/-- The text behind a word that is due. -/
def word? : List Char → List Char → Option (List Char)
  | [], text => some text
  | c :: cs, d :: rest => if c = d then word? cs rest else none
  | _ :: _, [] => none

mutual

/-- A value, with blanks in front. -/
def value? : Nat → List Char → Option (Json × List Char)
  | 0, _ => none
  | n + 1, text =>
    match skipBlanks text with
    | [] => none
    | '{' :: rest =>
      match skipBlanks rest with
      | '}' :: rest => some (obj [], rest)
      | rest => (members? n rest).map fun (ms, rest) => (obj ms, rest)
    | '[' :: rest =>
      match skipBlanks rest with
      | ']' :: rest => some (arr [], rest)
      | rest => (items? n rest).map fun (is, rest) => (arr is, rest)
    | '"' :: rest => (string? rest).map fun (s, rest) => (str s, rest)
    | 'n' :: rest => (word? "ull".toList rest).map fun rest => (null, rest)
    | 't' :: rest => (word? "rue".toList rest).map fun rest => (bool true, rest)
    | 'f' :: rest => (word? "alse".toList rest).map fun rest => (bool false, rest)
    | text => number? text

/-- The items of an array, of which there is at least one, and its closing bracket. -/
def items? : Nat → List Char → Option (List Json × List Char)
  | 0, _ => none
  | n + 1, text => do
    let (item, rest) ← value? n text
    match skipBlanks rest with
    | ',' :: rest =>
      let (more, rest) ← items? n rest
      return (item :: more, rest)
    | ']' :: rest => return ([item], rest)
    | _ => none

/-- The members of an object, of which there is at least one, and its closing brace. -/
def members? : Nat → List Char → Option (List (String × Json) × List Char)
  | 0, _ => none
  | n + 1, text =>
    match skipBlanks text with
    | '"' :: rest => do
      let (name, rest) ← string? rest
      match skipBlanks rest with
      | ':' :: rest =>
        let (value, rest) ← value? n rest
        match skipBlanks rest with
        | ',' :: rest =>
          let (more, rest) ← members? n rest
          return ((name, value) :: more, rest)
        | '}' :: rest => return ([(name, value)], rest)
        | _ => none
      | _ => none
    | _ => none

end

end Read

/-- The value that a text holds. -/
def parse? (text : String) : Option Json :=
  match Read.value? (text.toList.length + 1) text.toList with
  | some (j, rest) => if (Read.skipBlanks rest).isEmpty then some j else none
  | none => none

end MonkeyLang.Json
