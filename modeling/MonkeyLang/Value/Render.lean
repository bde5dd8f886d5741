import MonkeyLang.Syntax.Render
import MonkeyLang.Text.Escaped
import MonkeyLang.Value.Basic

/-!
# Values as text

`Value.inspect` is what a reader is shown: a string bare, a function as its source text, an error
with a word in front. `Value.describe` names the type of the value as well and puts strings in
quotes. Neither looks into the scope of a function, which may lead back to the function itself.
-/

namespace MonkeyLang

/-- The source text of a function. -/
def Closure.render (f : Closure) : String := (Expr.function f.parameters f.body).render

namespace Value

/-- What every builtin looks like. -/
def builtinText : String := "builtin function"

/-- The text that is shown for a value. -/
def inspect : Value → String
  | integer value => Decimal.render value
  | boolean value => toString value.content
  | string contents => contents
  | null _ => "null"
  | function f => f.render
  | builtin _ => builtinText
  | error _ message => "ERROR: " ++ message

/-- The text of a value with the name of its type. -/
def describe : Value → String
  | integer value => "Integer(" ++ Decimal.render value ++ ")"
  | boolean value => "Boolean(" ++ toString value.content ++ ")"
  | string contents => "String(" ++ Escaped.render contents ++ ")"
  | null _ => "Null"
  | function f => "Function(" ++ f.render ++ ")"
  | builtin f => "Builtin(" ++ f.content.name ++ ")"
  | error _ message => "Error(" ++ Escaped.render message ++ ")"

end Value

end MonkeyLang
