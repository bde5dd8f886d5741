import MonkeyLang.Text.Hex

/-!
# Text made visible

`Escaped.render` writes a string on one line so that every character of it can be seen: in
quotes, with a backslash in front of quotes and backslashes, short forms for line feed, carriage
return, tab and NUL, and the number of any other control character in hexadecimal. Characters
that can be printed stand for themselves.
-/

namespace MonkeyLang.Escaped

/-- A character of general category Cc: U+0000 to U+001F and U+007F to U+009F. -/
def isControl (c : Char) : Bool := c.toNat < 0x20 || (0x7F ≤ c.toNat && c.toNat < 0xA0)

/-- How one character is written. -/
def escape (c : Char) : List Char :=
  match c with
  | '"' => ['\\', '"']
  | '\\' => ['\\', '\\']
  | '\n' => ['\\', 'n']
  | '\r' => ['\\', 'r']
  | '\t' => ['\\', 't']
  | '\x00' => ['\\', '0']
  | c => if isControl c then ['\\', 'u', '{'] ++ Hex.digits c.toNat ++ ['}'] else [c]

/-- The text in quotes, with all that cannot be seen escaped. -/
def render (text : String) : String :=
  String.ofList ('"' :: (text.toList.flatMap escape ++ ['"']))

end MonkeyLang.Escaped
