import MonkeyLang.Source.Span
import MonkeyLang.Token.Kind

/-!
# Tokens

A `Terminal` is what the grammar sees of a token: its kind and its literal. The literal of a
string is its decoded contents; the literal of any other token is the text it was written as. A
`Token` is a terminal with the `Span` of source text it was read from.
-/

namespace MonkeyLang

/-- A terminal symbol with the text that belongs to it. -/
structure Terminal where
  kind : Kind
  literal : String
deriving DecidableEq, Repr, Inhabited

/-- A terminal at its place in the source. -/
structure Token extends Terminal where
  span : Span
deriving DecidableEq, Repr, Inhabited

namespace Token

/-- The mark behind the last token of a source of `bytes` bytes. -/
def endOfInput (bytes : Nat) : Token := ⟨⟨.endOfInput, ""⟩, .point bytes⟩

/-- The same token in a source that has `bytes` more bytes in front. -/
def shift (bytes : Nat) (t : Token) : Token := { t with span := t.span.shift bytes }

@[simp] theorem toTerminal_shift (bytes : Nat) (t : Token) :
    (t.shift bytes).toTerminal = t.toTerminal := rfl

@[simp] theorem shift_zero (t : Token) : t.shift 0 = t := rfl

@[simp] theorem shift_endOfInput (m n : Nat) :
    (endOfInput m).shift n = endOfInput (m + n) := rfl

end Token

end MonkeyLang
