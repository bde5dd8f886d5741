import MonkeyLang.Syntax.Parser
import MonkeyLang.Syntax.Production

/-!
# Reading programs from source text

`parse` reads a source: the program in it, without the statements that could not be read, and the
syntax errors, in the order in which they were met.

A parser asks its reader for one token after the other. `Parsed.ofTokens` reads the same from all
tokens at once, by the productions of the grammar on lists of terminals; only the errors look at the
layout there, and get from it the span of the token they are about. The one is proved to be the
other (`Reader.parse_eq_ofTokens`).
-/

namespace MonkeyLang

/-- A program with the syntax errors of its source, and the terminals left unread. -/
structure Parsed where
  program : Program
  errors : List SyntaxError
  rest : List Terminal
deriving Inhabited

/-- Reads a program from what a reader has not handed out. -/
@[irreducible] def Reader.parse (r : Reader) : Parsed :=
  let (program, p) := (Parser.ofReader r).program
  ⟨program, p.errors.toList, p.unread.map Token.toTerminal⟩

/-- Reads the program of a source. -/
def parse (source : String) : Parsed := (Reader.ofSource source).parse

/-! ## From a list of tokens -/

/-- The span of the token from which on `left` tokens are left, in a source of `bytes` bytes. -/
def spanOfLeft (tokens : Array Token) (bytes left : Nat) : Span :=
  match tokens[tokens.size - left]? with
  | some t => t.span
  | none => .point bytes

theorem spanOfLeft_toArray (tokens : List Token) (bytes left : Nat) :
    spanOfLeft tokens.toArray bytes left =
      (tokens[tokens.length - left]?).elim (.point bytes) (·.span) := by
  simp only [spanOfLeft, List.size_toArray, List.getElem?_toArray]
  cases tokens[tokens.length - left]? <;> rfl

/-- The first of the tokens that are left, or the mark of the end. -/
theorem spanOfLeft_append (front ts : List Token) (bytes : Nat) :
    spanOfLeft (front ++ ts).toArray bytes ts.length = (ts.headD (.endOfInput bytes)).span := by
  rw [spanOfLeft_toArray, List.length_append, Nat.add_sub_cancel,
    List.getElem?_append_right (Nat.le_refl _), Nat.sub_self]
  cases ts <;> rfl

/-- The syntax error that a mistake is in a source with the given tokens. -/
def Mistake.locate (tokens : Array Token) (bytes : Nat) (m : Mistake) : SyntaxError :=
  ⟨m.cause, spanOfLeft tokens bytes m.left⟩

/-- Reads a program from the tokens of a source of `bytes` bytes. -/
def Parsed.ofTokens (tokens : List Token) (bytes : Nat) : Parsed :=
  let reading := Program.ofTerminals (tokens.map Token.toTerminal)
  let places := tokens.toArray
  ⟨reading.program, reading.mistakes.map (·.locate places bytes), reading.rest⟩

end MonkeyLang
