import MonkeyLang.Syntax.Basic
import MonkeyLang.Syntax.Error
import MonkeyLang.Text.Decimal
import MonkeyLang.Token.Reader

/-!
# Parsers

A `Parser` sees two tokens: the current one and the one behind it, which is peeked at. What follows
is asked of a reader when it is needed. `advance` moves by one token; at the end of the source the
current token is the mark of the end, over and over.

An `Action` reads something and leaves the parser on the last token that belongs to it, or reads
nothing. Nothing is read without an error being noted, which has the span of the token it is about.
An error never stops a program from being read further; the statement around it resumes:

* after a `let`, behind the next semicolon (`synchronize`);
* after a `return`, behind the token at which the expression was given up;
* after an expression, there too, less one semicolon.

Statements that fail leave nothing in the program. Expressions are read by precedence climbing:
`expression` reads an operand and `extend` lets it grow to the right for as long as the token peeked
at binds more tightly than a given floor. Actions that call each other count down a bound on the
depth of calls; `depth` is one that always suffices, as a token is no shorter than a character.
-/

namespace MonkeyLang

/-- The current token, the one behind it and the reader of what follows, with the errors so far. -/
structure Parser where
  reader : Reader
  current : Token
  peek : Token
  errors : Array SyntaxError

namespace Parser

/-- The parser in front of what a reader has not handed out. -/
def ofReader (r : Reader) : Parser :=
  let (current, r) := r.next
  let (peek, r) := r.next
  ⟨r, current, peek, #[]⟩

/-- The parser one token further. -/
def advance (p : Parser) : Parser :=
  let (t, r) := p.reader.next
  { p with reader := r, current := p.peek, peek := t }

/-- Notes an error about a token. -/
def note (p : Parser) (cause : SyntaxError.Cause) (t : Token) : Parser :=
  { p with errors := p.errors.push ⟨cause, t.span⟩ }

/-- The tokens that the parser has not moved past. -/
def unread (p : Parser) : List Token :=
  (p.current :: p.peek :: p.reader.remaining).takeWhile (·.kind ≠ .endOfInput)

/-- The parser moves past its current token. -/
theorem unread_advance {p : Parser} (h : p.current.kind ≠ .endOfInput) :
    p.advance.unread = p.unread.tail := by
  have hremaining := p.reader.advance?_remaining.2
  unfold unread advance
  rw [p.reader.next_eq]
  cases hreader : p.reader.remaining with
  | nil => simp [hremaining, hreader, h, Token.endOfInput, List.takeWhile_cons]
  | cons t ts => simp [hremaining, hreader, h, List.takeWhile_cons]

theorem length_unread_advance_lt {p : Parser} (h : p.current.kind ≠ .endOfInput) :
    p.advance.unread.length < p.unread.length := by
  rw [unread_advance h, List.length_tail]
  have hpos : 0 < p.unread.length := by simp [unread, List.takeWhile_cons, h]
  omega

/-- The parser at the end of the statement: on the next semicolon, or at the end of the source. -/
def synchronize (p : Parser) : Parser :=
  if p.current.kind = .semicolon ∨ p.current.kind = .endOfInput then p
  else p.advance.synchronize
termination_by p.unread.length
decreasing_by
  next h => exact length_unread_advance_lt fun hend => h (.inr hend)

theorem synchronize_of_stop {p : Parser}
    (h : p.current.kind = .semicolon ∨ p.current.kind = .endOfInput) : p.synchronize = p := by
  rw [synchronize, if_pos h]

theorem synchronize_of_go {p : Parser}
    (h : ¬(p.current.kind = .semicolon ∨ p.current.kind = .endOfInput)) :
    p.synchronize = p.advance.synchronize := by
  rw [synchronize, if_neg h]

/-- The parser at the end of the source. -/
def finish (p : Parser) : Parser :=
  let mark := Token.endOfInput p.reader.source.utf8ByteSize
  { p with reader := p.reader.drain.2, current := mark, peek := mark }

/-! ## Actions -/

/-- What a parser reads, or nothing, and the parser then. -/
def Action (α : Type) : Type := Parser → Option α × Parser

namespace Action

variable {α β : Type}

/-- Reads nothing of the source. -/
@[inline] def succeed (value : α) : Action α := fun p => (some value, p)

/-- One action after another; a failure of the first is a failure of both. -/
@[inline] def andThen (a : Action α) (f : α → Action β) : Action β := fun p =>
  match a p with
  | (some value, p) => f value p
  | (none, p) => (none, p)

end Action

instance : Monad Action where
  pure := Action.succeed
  bind := Action.andThen

variable {α : Type}

/-- The bound on the depth of calls is used up. -/
def exhausted : Action α := fun p => (none, p.finish)

/-- Moves to the next token, whatever it is. -/
def next : Action Unit := fun p => (some (), p.advance)

/-- The literal of the current token. -/
def literal : Action String := fun p => (some p.current.literal, p)

/-- Moves to the next token, which is due to be of the given kind. -/
def expect (kind : Kind) : Action Unit := fun p =>
  if p.peek.kind = kind then (some (), p.advance)
  else (none, p.note (.unexpected kind p.peek.kind) p.peek)

/-- No expression begins with the current token. -/
def refuse : Action α := fun p => (none, p.note (.noExpression p.current.kind) p.current)

/-- The integer that the current token is the literal of. -/
def integer : Action Expr := fun p =>
  match Decimal.int64? p.current.literal.toList with
  | some value => (some (.integer value), p)
  | none => (none, p.note (.integerRange p.current.literal) p.current)

/-- The parser on the semicolon behind the current token, if there is one. -/
def toSemicolon (p : Parser) : Parser := if p.peek.kind = .semicolon then p.advance else p

/-- Moves to a semicolon, if there is one behind the current token. -/
def semicolon : Action Unit := fun p => (some (), p.toSemicolon)

/-- An action that applies only behind a token of the given kind. -/
@[inline] def behind (kind : Kind) (a : Action α) : Action (Option α) := fun p =>
  if p.peek.kind = kind then
    (do
      next
      let value ← a
      return some value : Action (Option α)) p
  else (some none, p)

/-- A statement, or none and the parser where it resumes after a failure. -/
@[inline] def attempt (resume : Parser → Parser) (a : Action Stmt) : Action (Option Stmt) :=
  fun p =>
    match a p with
    | (some s, p) => (some (some s), p)
    | (none, p) => (some none, resume p)

/-- The parameters behind the first one, and the parenthesis that closes their list. -/
def moreParameters : Nat → Action (List String)
  | 0 => exhausted
  | n + 1 => fun p =>
    if p.peek.kind = .comma then
      (do
        next
        expect .identifier
        let name ← literal
        let names ← moreParameters n
        return name :: names : Action (List String)) p
    else
      (do
        expect .rightParen
        return [] : Action (List String)) p

/-- The parameters of a function, and the parenthesis that closes their list. -/
def parameters (n : Nat) : Action (List String) := fun p =>
  if p.peek.kind = .rightParen then
    (do
      next
      return [] : Action (List String)) p
  else
    (do
      expect .identifier
      let name ← literal
      let names ← moreParameters n
      return name :: names : Action (List String)) p

mutual

/-- An expression whose operators outside of parentheses bind more tightly than `floor`. -/
def expression : Nat → Precedence → Action Expr
  | 0, _ => exhausted
  | n + 1, floor => do
    let left ← operand n
    extend n floor left

/-- An expression that needs nothing in front of it: a name, a literal, a unary operator with its
operand, an expression in parentheses, a conditional or a function. -/
def operand : Nat → Action Expr
  | 0 => exhausted
  | n + 1 => fun p =>
    match p.current.kind with
    | .identifier => (some (.identifier p.current.literal), p)
    | .integer => integer p
    | .string => (some (.string p.current.literal), p)
    | .trueWord => (some (.boolean true), p)
    | .falseWord => (some (.boolean false), p)
    | .bang =>
      (do
        next
        let value ← expression n .unary
        return .unary .not value : Action Expr) p
    | .minus =>
      (do
        next
        let value ← expression n .unary
        return .unary .negate value : Action Expr) p
    | .leftParen =>
      (do
        next
        let inner ← expression n .lowest
        expect .rightParen
        return inner : Action Expr) p
    | .ifWord =>
      (do
        expect .leftParen
        next
        let condition ← expression n .lowest
        expect .rightParen
        expect .leftBrace
        next
        let consequence ← block n
        let alternative ← behind .elseWord (do
          expect .leftBrace
          next
          block n)
        return .conditional condition consequence alternative : Action Expr) p
    | .function =>
      (do
        expect .leftParen
        let names ← parameters n
        expect .leftBrace
        next
        let body ← block n
        return .function names body : Action Expr) p
    | _ => refuse p

/-- The expression that begins with `left` and takes in all that binds more tightly than
`floor`. -/
def extend : Nat → Precedence → Expr → Action Expr
  | 0, _, _ => exhausted
  | n + 1, floor, left => fun p =>
    if p.peek.kind ≠ .semicolon ∧ floor < p.peek.kind.precedence then
      match BinaryOperator.ofKind? p.peek.kind with
      | some operator =>
        (do
          next
          next
          let right ← expression n p.peek.kind.precedence
          extend n floor (.binary operator left right) : Action Expr) p
      | none =>
        if p.peek.kind = .leftParen then
          (do
            next
            let values ← arguments n
            extend n floor (.call left values) : Action Expr) p
        else (some left, p)
    else (some left, p)

/-- The arguments of a call, and the parenthesis that closes their list. -/
def arguments : Nat → Action (List Expr)
  | 0 => exhausted
  | n + 1 => fun p =>
    if p.peek.kind = .rightParen then
      (do
        next
        return [] : Action (List Expr)) p
    else
      (do
        next
        let value ← expression n .lowest
        let values ← moreArguments n
        return value :: values : Action (List Expr)) p

/-- The arguments behind the first one, and the parenthesis that closes their list. -/
def moreArguments : Nat → Action (List Expr)
  | 0 => exhausted
  | n + 1 => fun p =>
    if p.peek.kind = .comma then
      (do
        next
        next
        let value ← expression n .lowest
        let values ← moreArguments n
        return value :: values : Action (List Expr)) p
    else
      (do
        expect .rightParen
        return [] : Action (List Expr)) p

/-- The statements of a block, from the first one to the brace that closes it. Without that brace
the block takes all that is left. -/
def block : Nat → Action (List Stmt)
  | 0 => exhausted
  | n + 1 => fun p =>
    if p.current.kind = .rightBrace then (some [], p)
    else if p.current.kind = .endOfInput then
      (some [], p.note (.unexpected .rightBrace .endOfInput) p.current)
    else
      (do
        let first ← statement n
        next
        let others ← block n
        return first.toList ++ others : Action (List Stmt)) p

/-- A statement, or nothing where one could not be read. -/
def statement : Nat → Action (Option Stmt)
  | 0 => exhausted
  | n + 1 => fun p =>
    match p.current.kind with
    | .letWord =>
      attempt synchronize (do
        expect .identifier
        let name ← literal
        expect .assign
        next
        let value ← expression n .lowest
        semicolon
        return .binding name value) p
    | .returnWord =>
      attempt id (do
        next
        let value ← expression n .lowest
        semicolon
        return .leave value) p
    | _ =>
      attempt toSemicolon (do
        let value ← expression n .lowest
        semicolon
        return .expression value) p

end

/-- Statements up to the end of the source. -/
def statements : Nat → Action (List Stmt)
  | 0 => exhausted
  | n + 1 => fun p =>
    if p.current.kind = .endOfInput then (some [], p)
    else
      (do
        let first ← statement n
        next
        let others ← statements n
        return first.toList ++ others : Action (List Stmt)) p

/-- A bound on the depth of calls that suffices: from one token to the next no more than four
actions call each other. -/
def depth (p : Parser) : Nat := 4 * (p.reader.rest.length + 3)

/-- The program that is read up to the end of the source, and the parser there. -/
def program (p : Parser) : Program × Parser :=
  match statements p.depth p with
  | (some ss, p) => (⟨ss⟩, p)
  | (none, p) => (⟨[]⟩, p)

end Parser

end MonkeyLang
