import MonkeyLang.Syntax.Basic
import MonkeyLang.Syntax.Error
import MonkeyLang.Text.Decimal
import MonkeyLang.Token.Basic

/-!
# The productions of the grammar

What an action of a `Parser` reads, as a function of the terminals in front of it: a `Production`
reads something from the front of a list, a value and the terminals behind it, or a failure. It
never stops a program from being read further. What is wrong is noted in a list of mistakes, each
placed by the number of terminals that are left from the one it is about, and the statement around a
failure resumes behind it:

* after an expression that could not be read, at the terminal where it was given up, less one
  semicolon;
* after a `return`, exactly there;
* after a `let`, behind the next semicolon.

A terminal at which no expression can begin counts as read; a terminal that stands in place of
another one does not. Statements that fail leave nothing in the program.

Expressions are read by precedence climbing: `expression` reads an operand and `extend` lets it
grow to the right for as long as what follows binds more tightly than a given floor. Productions
that call each other count down a bound on the depth of calls; `depth` is one that suffices for
any list of terminals, and `Program.ofTerminals` reads with that bound.
-/

namespace MonkeyLang

/-- Something wrong at a terminal, which is placed by how many terminals are left from it on. -/
structure Mistake where
  cause : SyntaxError.Cause
  left : Nat
deriving DecidableEq, Repr, Inhabited

/-- How a production ends. -/
inductive Production.Result (α : Type) where
  /-- The value read, and what is left behind it. -/
  | found (value : α) (rest : List Terminal)
  /-- Nothing was read. What is left, and whether the terminal in front of it is a semicolon at
  which an expression was due, so that the statement is over already. -/
  | failed (rest : List Terminal) (closed : Bool)

/-- The mistakes noted by a production, in order, and how it ends. -/
structure Production.Reply (α : Type) where
  mistakes : List Mistake
  result : Production.Result α

/-- A way to read a value from the front of a list of terminals. -/
def Production (α : Type) : Type := List Terminal → Production.Reply α

namespace Production

open SyntaxError

variable {α β : Type}

/-- Reads nothing. -/
@[inline] def succeed (value : α) : Production α := fun ts => ⟨[], .found value ts⟩

/-- One production after another; a failure of the first is a failure of both. -/
@[inline] def andThen (p : Production α) (q : α → Production β) : Production β := fun ts =>
  match p ts with
  | ⟨ms, .found value rest⟩ => ⟨ms ++ (q value rest).mistakes, (q value rest).result⟩
  | ⟨ms, .failed rest closed⟩ => ⟨ms, .failed rest closed⟩

instance : Monad Production where
  pure := succeed
  bind := andThen

/-- What follows a value goes on behind it. -/
theorem bind_of_found {p : Production α} {q : α → Production β} {ts rest : List Terminal}
    {ms : List Mistake} {value : α} (h : p ts = ⟨ms, .found value rest⟩) :
    (p >>= q) ts = ⟨ms ++ (q value rest).mistakes, (q value rest).result⟩ := by
  simp only [Bind.bind, andThen, h]

/-- What follows a failure is skipped. -/
theorem bind_of_failed {p : Production α} {q : α → Production β} {ts rest : List Terminal}
    {ms : List Mistake} {closed : Bool} (h : p ts = ⟨ms, .failed rest closed⟩) :
    (p >>= q) ts = ⟨ms, .failed rest closed⟩ := by
  simp only [Bind.bind, andThen, h]

instance : LawfulMonad Production :=
  .mk' Production
    (fun p => by
      funext ts
      show andThen p succeed ts = p ts
      unfold andThen
      split <;> simp_all [succeed])
    (fun _ _ => rfl)
    (fun p q r => by
      funext ts
      show andThen (andThen p q) r ts = andThen p (fun a => andThen (q a) r) ts
      simp only [andThen]
      cases p ts with
      | mk ms result =>
        cases result with
        | failed rest closed => rfl
        | found value rest =>
          dsimp only
          cases q value rest with
          | mk ns result => cases result <;> simp)

/-- The kind of the terminal ahead. -/
def ahead : List Terminal → Kind
  | [] => .endOfInput
  | t :: _ => t.kind

/-- The terminals without a semicolon at their front. -/
def withoutSemicolon : List Terminal → List Terminal
  | [] => []
  | t :: rest => if t.kind = .semicolon then rest else t :: rest

/-- The terminals behind the next semicolon. -/
def afterSemicolon : List Terminal → List Terminal
  | [] => []
  | t :: rest => if t.kind = .semicolon then rest else afterSemicolon rest

/-- The bound on the depth of calls is used up. -/
def exhausted : Production α := fun _ => ⟨[], .failed [] false⟩

/-- The literal of a terminal of the given kind, which is due. -/
def expect (kind : Kind) : Production String
  | [] => ⟨[⟨.unexpected kind .endOfInput, 0⟩], .failed [] false⟩
  | t :: rest =>
    if t.kind = kind then ⟨[], .found t.literal rest⟩
    else ⟨[⟨.unexpected kind t.kind, rest.length + 1⟩], .failed (t :: rest) false⟩

/-- No expression begins here. -/
def refuse : Production α
  | [] => ⟨[⟨.noExpression .endOfInput, 0⟩], .failed [] false⟩
  | t :: rest =>
    ⟨[⟨.noExpression t.kind, rest.length + 1⟩], .failed rest (t.kind == .semicolon)⟩

/-- An integer literal. -/
def integer : Production Expr
  | [] => refuse []
  | t :: rest =>
    match Decimal.int64? t.literal.toList with
    | some value => ⟨[], .found (.integer value) rest⟩
    | none => ⟨[⟨.integerRange t.literal, rest.length + 1⟩], .failed rest false⟩

/-- A semicolon, if there is one. -/
def semicolon : Production Unit := fun ts => ⟨[], .found () (withoutSemicolon ts)⟩

/-- A production that applies only behind a terminal of the given kind. -/
@[inline] def behind (kind : Kind) (p : Production α) : Production (Option α)
  | [] => succeed none []
  | t :: rest => if t.kind = kind then (some <$> p) rest else succeed none (t :: rest)

/-- A statement, or none and the terminals at which to resume after a failure. -/
@[inline] def attempt (resume : List Terminal → Bool → List Terminal) (p : Production Stmt) :
    Production (Option Stmt) := fun ts =>
  match p ts with
  | ⟨ms, .found s rest⟩ => ⟨ms, .found (some s) rest⟩
  | ⟨ms, .failed rest closed⟩ => ⟨ms, .found none (resume rest closed)⟩

/-- The parameters behind the first one, and the parenthesis that closes their list. -/
def moreParameters : Nat → Production (List String)
  | 0 => exhausted
  | n + 1 => fun ts =>
    if ahead ts = .comma then
      (do
        let _ ← expect .comma
        let name ← expect .identifier
        let names ← moreParameters n
        return name :: names : Production (List String)) ts
    else
      (do
        let _ ← expect .rightParen
        return [] : Production (List String)) ts

/-- The parameters of a function, and the parenthesis that closes their list. -/
def parameters (n : Nat) : Production (List String) := fun ts =>
  if ahead ts = .rightParen then
    (do
      let _ ← expect .rightParen
      return [] : Production (List String)) ts
  else
    (do
      let name ← expect .identifier
      let names ← moreParameters n
      return name :: names : Production (List String)) ts

mutual

/-- An expression whose operators outside of parentheses bind more tightly than `floor`. -/
def expression : Nat → Precedence → Production Expr
  | 0, _ => exhausted
  | n + 1, floor => do
    let left ← operand n
    extend n floor left

/-- An expression that needs nothing in front of it: a name, a literal, a unary operator with its
operand, an expression in parentheses, a conditional or a function. -/
def operand : Nat → Production Expr
  | 0 => exhausted
  | n + 1 => fun ts =>
    match ts with
    | [] => refuse []
    | t :: rest =>
      match t.kind with
      | .identifier => ⟨[], .found (.identifier t.literal) rest⟩
      | .integer => integer (t :: rest)
      | .string => ⟨[], .found (.string t.literal) rest⟩
      | .trueWord => ⟨[], .found (.boolean true) rest⟩
      | .falseWord => ⟨[], .found (.boolean false) rest⟩
      | .bang => (Expr.unary .not <$> expression n .unary) rest
      | .minus => (Expr.unary .negate <$> expression n .unary) rest
      | .leftParen =>
        (do
          let inner ← expression n .lowest
          let _ ← expect .rightParen
          return inner : Production Expr) rest
      | .ifWord =>
        (do
          let _ ← expect .leftParen
          let condition ← expression n .lowest
          let _ ← expect .rightParen
          let _ ← expect .leftBrace
          let consequence ← block n
          let alternative ← behind .elseWord (do
            let _ ← expect .leftBrace
            block n)
          return .conditional condition consequence alternative : Production Expr) rest
      | .function =>
        (do
          let _ ← expect .leftParen
          let names ← parameters n
          let _ ← expect .leftBrace
          let body ← block n
          return .function names body : Production Expr) rest
      | _ => refuse (t :: rest)

/-- The expression that begins with `left` and takes in all that binds more tightly than
`floor`. -/
def extend : Nat → Precedence → Expr → Production Expr
  | 0, _, _ => exhausted
  | n + 1, floor, left => fun ts =>
    match ts with
    | [] => ⟨[], .found left []⟩
    | t :: rest =>
      if floor < t.kind.precedence then
        match BinaryOperator.ofKind? t.kind with
        | some operator =>
          (do
            let right ← expression n operator.precedence
            extend n floor (.binary operator left right) : Production Expr) rest
        | none =>
          (do
            let values ← arguments n
            extend n floor (.call left values) : Production Expr) rest
      else ⟨[], .found left (t :: rest)⟩

/-- The arguments of a call, and the parenthesis that closes their list. -/
def arguments : Nat → Production (List Expr)
  | 0 => exhausted
  | n + 1 => fun ts =>
    if ahead ts = .rightParen then
      (do
        let _ ← expect .rightParen
        return [] : Production (List Expr)) ts
    else
      (do
        let value ← expression n .lowest
        let values ← moreArguments n
        return value :: values : Production (List Expr)) ts

/-- The arguments behind the first one, and the parenthesis that closes their list. -/
def moreArguments : Nat → Production (List Expr)
  | 0 => exhausted
  | n + 1 => fun ts =>
    if ahead ts = .comma then
      (do
        let _ ← expect .comma
        let value ← expression n .lowest
        let values ← moreArguments n
        return value :: values : Production (List Expr)) ts
    else
      (do
        let _ ← expect .rightParen
        return [] : Production (List Expr)) ts

/-- The statements of a block and the brace that closes it. Without that brace the block takes all
that is left. -/
def block : Nat → Production (List Stmt)
  | 0 => exhausted
  | n + 1 => fun ts =>
    match ts with
    | [] => ⟨[⟨.unexpected .rightBrace .endOfInput, 0⟩], .found [] []⟩
    | t :: rest =>
      if t.kind = .rightBrace then ⟨[], .found [] rest⟩
      else
        (do
          let first ← statement n
          let others ← block n
          return first.toList ++ others : Production (List Stmt)) (t :: rest)

/-- A statement, or nothing where one could not be read. -/
def statement : Nat → Production (Option Stmt)
  | 0 => exhausted
  | n + 1 => fun ts =>
    match ahead ts with
    | .letWord =>
      attempt (fun rest closed => if closed then rest else afterSemicolon rest) (do
        let _ ← expect .letWord
        let name ← expect .identifier
        let _ ← expect .assign
        let value ← expression n .lowest
        semicolon
        return .binding name value) ts
    | .returnWord =>
      attempt (fun rest _ => rest) (do
        let _ ← expect .returnWord
        let value ← expression n .lowest
        semicolon
        return .leave value) ts
    | _ =>
      attempt (fun rest _ => withoutSemicolon rest) (do
        let value ← expression n .lowest
        semicolon
        return .expression value) ts

end

/-- Statements up to the end of the terminals. -/
def statements : Nat → Production (List Stmt)
  | 0 => exhausted
  | n + 1 => fun ts =>
    match ts with
    | [] => ⟨[], .found [] []⟩
    | t :: rest =>
      (do
        let first ← statement n
        let others ← statements n
        return first.toList ++ others : Production (List Stmt)) (t :: rest)

/-- A bound on the depth of calls that suffices for a list of terminals: from one terminal to the
next no more than four productions call each other. -/
def depth (ts : List Terminal) : Nat := 4 * (ts.length + 1)

end Production

/-- What was read from a list of terminals: a program, the mistakes found on the way, in order,
and the terminals left over. -/
structure Reading where
  program : Program
  mistakes : List Mistake
  rest : List Terminal
deriving Inhabited

/-- Reads a program from a list of terminals. -/
def Program.ofTerminals (ts : List Terminal) : Reading :=
  match Production.statements (Production.depth ts) ts with
  | ⟨ms, .found ss rest⟩ => ⟨⟨ss⟩, ms, rest⟩
  | ⟨ms, .failed rest _⟩ => ⟨⟨[]⟩, ms, rest⟩

end MonkeyLang
