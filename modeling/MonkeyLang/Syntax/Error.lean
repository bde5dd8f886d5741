import MonkeyLang.Source.Span
import MonkeyLang.Token.Kind

/-!
# Syntax errors

There are three ways to leave the grammar: a token stands where another one is due, an expression
is due where none can begin, and an integer is too large. A `SyntaxError` is one of these with the
span of the token it is about; the texts a reader sees are computed from it.
-/

namespace MonkeyLang

/-- What is wrong with a token. -/
inductive SyntaxError.Cause where
  /-- The token is not the one that is due. -/
  | unexpected (expected found : Kind)
  /-- No expression begins with the token. -/
  | noExpression (kind : Kind)
  /-- The integer does not fit a signed 64-bit word. -/
  | integerRange (literal : String)
deriving DecidableEq, Repr, Inhabited

/-- What is wrong, and where. -/
structure SyntaxError where
  cause : SyntaxError.Cause
  span : Span
deriving DecidableEq, Repr, Inhabited

namespace SyntaxError

namespace Cause

/-- The sentence that says what is wrong. -/
def message : Cause → String
  | unexpected expected found =>
    "expected next token to be " ++ expected.name ++ ", got " ++ found.name ++ " instead"
  | noExpression kind => "no prefix parse function for " ++ kind.name ++ " found"
  | integerRange literal => "could not parse " ++ literal ++ " as integer"

/-- The name under which the error is documented. -/
def code : Cause → String
  | unexpected _ _ => "parse::unexpected_token"
  | noExpression _ => "parse::no_prefix_parse_fn"
  | integerRange _ => "parse::invalid_integer"

/-- Advice that goes with the error. -/
def help? : Cause → Option String
  | unexpected _ _ => none
  | noExpression _ => some "an expression cannot start with this token"
  | integerRange _ => some "integer literals must fit in a signed 64-bit integer"

/-- What is written at the token itself. -/
def label : Cause → String
  | unexpected expected _ => "expected " ++ expected.name ++ " here"
  | noExpression kind => "unexpected " ++ kind.name
  | integerRange _ => "out of range"

end Cause

/-- The sentence that says what is wrong. -/
def message (e : SyntaxError) : String := e.cause.message

/-- The same error in a source that has `bytes` more bytes in front. -/
def shift (bytes : Nat) (e : SyntaxError) : SyntaxError := { e with span := e.span.shift bytes }

/-- The sentence for a source with the given errors as a whole. -/
def summary (errors : List SyntaxError) : String :=
  "found " ++ toString errors.length ++ " parse error(s)"

/-- The name under which a source with errors is documented as a whole. -/
def summaryCode : String := "parse::failed"

end SyntaxError

end MonkeyLang
