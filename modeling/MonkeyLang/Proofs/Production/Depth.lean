import MonkeyLang.Proofs.Production.Progress

/-!
# The depth of calls suffices

The productions count down a bound on the depth of their calls. From one terminal to the next it
goes down by four at most, so from `4 * ts.length + 4` on it makes no difference.

`Unbounded` has the productions at that bound. `Unbounded.expression_unfold` and its companions
say, for every bound that is large enough, what a production does in terms of the unbounded ones;
the induction is on the number of terminals and, within it, on how many productions may still be
entered before the next terminal is read. It compares two bounds and not a reply with a law, so it
goes through the productions by itself. The equations behind them mention no bound.
-/

namespace MonkeyLang.Production

variable {α β : Type}

/-! ## Productions that agree on a list -/

/-- Two sequences agree if their first productions do, and the second ones do on all that the
first may leave. -/
theorem bind_congr_at {p p' : Production α} {q q' : α → Production β} {ts ts' : List Terminal}
    (hp : p ts = p' ts') (hq : ∀ ms a rest, p ts = ⟨ms, .found a rest⟩ → q a rest = q' a rest) :
    (p >>= q) ts = (p' >>= q') ts' := by
  cases h : p ts with
  | mk ms result =>
    have h' := hp ▸ h
    cases result with
    | found a rest => rw [bind_of_found h, bind_of_found h', hq ms a rest h]
    | failed rest closed => rw [bind_of_failed h, bind_of_failed h']

theorem map_congr_at {p p' : Production α} {ts ts' : List Terminal} (f : α → β)
    (h : p ts = p' ts') : (f <$> p) ts = (f <$> p') ts' := by
  rw [map_eq_pure_bind, map_eq_pure_bind]
  exact bind_congr_at h fun _ _ _ _ => rfl

theorem behind_congr_at {p p' : Production α} {kind : Kind} {ts : List Terminal}
    (h : ∀ rest, rest.length < ts.length → p rest = p' rest) :
    behind kind p ts = behind kind p' ts := by
  cases ts with
  | nil => rfl
  | cons t rest =>
    simp only [behind]
    rw [map_congr_at some (h rest (Nat.lt_succ_self _))]

theorem attempt_congr_at {p p' : Production Stmt} {ts ts' : List Terminal}
    (resume : List Terminal → Bool → List Terminal) (h : p ts = p' ts') :
    attempt resume p ts = attempt resume p' ts' := by
  simp only [attempt, h]

/-- The terminals behind one that was due are fewer. -/
theorem length_lt_of_expect {kind : Kind} {ts rest : List Terminal} {ms : List Mistake}
    {literal : String} (h : expect kind ts = ⟨ms, .found literal rest⟩) :
    rest.length < ts.length := by
  cases ts with
  | nil => cases h
  | cons t us =>
    simp only [expect] at h
    split at h
    · cases h
      exact Nat.lt_succ_self _
    · cases h

theorem le_depth {ts : List Terminal} {c : Nat} (hc : c ≤ 4) :
    4 * ts.length + c ≤ depth ts := by
  unfold depth
  omega

/-! ## The productions without a bound -/

namespace Unbounded

/-- The parameters behind the first one, and the parenthesis that closes their list. -/
def moreParameters : Production (List String) := fun ts => Production.moreParameters (depth ts) ts

/-- The parameters of a function, and the parenthesis that closes their list. -/
def parameters : Production (List String) := fun ts => Production.parameters (depth ts) ts

/-- An expression whose operators outside of parentheses bind more tightly than `floor`. -/
def expression (floor : Precedence) : Production Expr := fun ts =>
  Production.expression (depth ts) floor ts

/-- An expression that needs nothing in front of it. -/
def operand : Production Expr := fun ts => Production.operand (depth ts) ts

/-- The expression that begins with `left` and takes in all that binds more tightly than
`floor`. -/
def extend (floor : Precedence) (left : Expr) : Production Expr := fun ts =>
  Production.extend (depth ts) floor left ts

/-- The arguments of a call, and the parenthesis that closes their list. -/
def arguments : Production (List Expr) := fun ts => Production.arguments (depth ts) ts

/-- The arguments behind the first one, and the parenthesis that closes their list. -/
def moreArguments : Production (List Expr) := fun ts => Production.moreArguments (depth ts) ts

/-- The statements of a block and the brace that closes it. -/
def block : Production (List Stmt) := fun ts => Production.block (depth ts) ts

/-- A statement, or nothing where one could not be read. -/
def statement : Production (Option Stmt) := fun ts => Production.statement (depth ts) ts

/-- Statements up to the end of the terminals. -/
def statements : Production (List Stmt) := fun ts => Production.statements (depth ts) ts

theorem moreParameters_unfold {n : Nat} {ts : List Terminal} (hn : ts.length < n) :
    Production.moreParameters n ts =
      if ahead ts = .comma then
        (do
          let _ ← expect .comma
          let name ← expect .identifier
          let names ← moreParameters
          return name :: names : Production (List String)) ts
      else
        (do
          let _ ← expect .rightParen
          return [] : Production (List String)) ts := by
  obtain ⟨n, rfl⟩ : ∃ k, n = k + 1 := ⟨n - 1, by omega⟩
  unfold Production.moreParameters
  split
  · refine bind_congr_at rfl fun _ _ r₁ h₁ => bind_congr_at rfl fun _ _ r₂ h₂ => ?_
    have := length_lt_of_expect h₁
    have := length_lt_of_expect h₂
    refine bind_congr_at ?_ fun _ _ _ _ => rfl
    exact (moreParameters_unfold (by omega)).trans
      (moreParameters_unfold (by unfold depth; omega)).symm
  · rfl
termination_by ts.length

theorem moreParameters_settles {n : Nat} {ts : List Terminal} (hn : ts.length < n) :
    Production.moreParameters n ts = moreParameters ts :=
  (moreParameters_unfold hn).trans (moreParameters_unfold (by unfold depth; omega)).symm

theorem parameters_unfold {n : Nat} {ts : List Terminal} (hn : ts.length ≤ n) :
    Production.parameters n ts =
      if ahead ts = .rightParen then
        (do
          let _ ← expect .rightParen
          return [] : Production (List String)) ts
      else
        (do
          let name ← expect .identifier
          let names ← moreParameters
          return name :: names : Production (List String)) ts := by
  unfold Production.parameters
  split
  · rfl
  · refine bind_congr_at rfl fun _ _ r h => ?_
    have := length_lt_of_expect h
    exact bind_congr_at (moreParameters_settles (by omega)) fun _ _ _ _ => rfl

theorem parameters_settles {n : Nat} {ts : List Terminal} (hn : ts.length ≤ n) :
    Production.parameters n ts = parameters ts :=
  (parameters_unfold hn).trans (parameters_unfold (by unfold depth; omega)).symm

mutual

theorem expression_unfold {n : Nat} {ts : List Terminal} (floor : Precedence)
    (hn : 4 * ts.length + 2 ≤ n) :
    Production.expression n floor ts =
      (do
        let left ← operand
        extend floor left : Production Expr) ts := by
  obtain ⟨n, rfl⟩ : ∃ k, n = k + 1 := ⟨n - 1, by omega⟩
  refine bind_congr_at (operand_settles (by omega)) fun _ left r h => ?_
  have := (operand_advances n).length_le h
  exact extend_settles floor left (by omega)
termination_by 8 * ts.length + 4

theorem expression_settles {n : Nat} {ts : List Terminal} (floor : Precedence)
    (hn : 4 * ts.length + 2 ≤ n) : Production.expression n floor ts = expression floor ts :=
  (expression_unfold floor hn).trans
    (expression_unfold (n := depth ts) floor (le_depth (by decide))).symm
termination_by 8 * ts.length + 5

theorem operand_unfold {n : Nat} {ts : List Terminal} : 4 * ts.length + 1 ≤ n →
    Production.operand n ts =
      match ts with
      | [] => refuse []
      | t :: rest =>
        match t.kind with
        | .identifier => ⟨[], .found (.identifier t.literal) rest⟩
        | .integer => integer (t :: rest)
        | .string => ⟨[], .found (.string t.literal) rest⟩
        | .trueWord => ⟨[], .found (.boolean true) rest⟩
        | .falseWord => ⟨[], .found (.boolean false) rest⟩
        | .bang => (Expr.unary .not <$> expression .unary) rest
        | .minus => (Expr.unary .negate <$> expression .unary) rest
        | .leftParen =>
          (do
            let inner ← expression .lowest
            let _ ← expect .rightParen
            return inner : Production Expr) rest
        | .ifWord =>
          (do
            let _ ← expect .leftParen
            let condition ← expression .lowest
            let _ ← expect .rightParen
            let _ ← expect .leftBrace
            let consequence ← block
            let alternative ← behind .elseWord (do
              let _ ← expect .leftBrace
              block)
            return .conditional condition consequence alternative : Production Expr) rest
        | .function =>
          (do
            let _ ← expect .leftParen
            let names ← parameters
            let _ ← expect .leftBrace
            let body ← block
            return .function names body : Production Expr) rest
        | _ => refuse (t :: rest) := by
  intro hn
  obtain ⟨n, rfl⟩ : ∃ k, n = k + 1 := ⟨n - 1, by omega⟩
  rcases hts : ts with _ | ⟨⟨kind, literal⟩, rest⟩
  · rfl
  · have hl : ts.length = rest.length + 1 := by rw [hts, List.length_cons]
    cases kind with
    | bang | minus => exact map_congr_at _ (expression_settles _ (by omega))
    | leftParen => exact bind_congr_at (expression_settles _ (by omega)) fun _ _ _ _ => rfl
    | ifWord =>
      refine bind_congr_at rfl fun _ _ r₁ h₁ => ?_
      have := length_lt_of_expect h₁
      refine bind_congr_at (expression_settles _ (by omega)) fun _ _ r₂ h₂ => ?_
      have := (expression_advances n _).length_le h₂
      refine bind_congr_at rfl fun _ _ r₃ h₃ => bind_congr_at rfl fun _ _ r₄ h₄ => ?_
      have := length_lt_of_expect h₃
      have := length_lt_of_expect h₄
      refine bind_congr_at (block_settles (by omega)) fun _ _ r₅ h₅ => ?_
      have := (block_advances n).length_le h₅
      refine bind_congr_at (behind_congr_at fun r₆ h₆ => bind_congr_at rfl fun _ _ r₇ h₇ => ?_)
        fun _ _ _ _ => rfl
      have := length_lt_of_expect h₇
      exact block_settles (by omega)
    | function =>
      refine bind_congr_at rfl fun _ _ r₁ h₁ => ?_
      have := length_lt_of_expect h₁
      refine bind_congr_at (parameters_settles (by omega)) fun _ _ r₂ h₂ => ?_
      have := (keeps_parameters n).length_le h₂
      refine bind_congr_at rfl fun _ _ r₃ h₃ => ?_
      have := length_lt_of_expect h₃
      exact bind_congr_at (block_settles (by omega)) fun _ _ _ _ => rfl
    | _ => rfl
termination_by 8 * ts.length + 2

theorem operand_settles {n : Nat} {ts : List Terminal} (hn : 4 * ts.length + 1 ≤ n) :
    Production.operand n ts = operand ts :=
  (operand_unfold hn).trans (operand_unfold (n := depth ts) (le_depth (by decide))).symm
termination_by 8 * ts.length + 3

theorem extend_unfold {n : Nat} {ts : List Terminal} (floor : Precedence) (left : Expr) :
    4 * ts.length + 1 ≤ n → Production.extend n floor left ts =
      match ts with
      | [] => ⟨[], .found left []⟩
      | t :: rest =>
        if floor < t.kind.precedence then
          match BinaryOperator.ofKind? t.kind with
          | some operator =>
            (do
              let right ← expression operator.precedence
              extend floor (.binary operator left right) : Production Expr) rest
          | none =>
            (do
              let values ← arguments
              extend floor (.call left values) : Production Expr) rest
        else ⟨[], .found left (t :: rest)⟩ := by
  intro hn
  obtain ⟨n, rfl⟩ : ∃ k, n = k + 1 := ⟨n - 1, by omega⟩
  rcases hts : ts with _ | ⟨t, rest⟩
  · rfl
  · have hl : ts.length = rest.length + 1 := by rw [hts, List.length_cons]
    simp only [Production.extend]
    split
    · cases BinaryOperator.ofKind? t.kind with
      | some operator =>
        refine bind_congr_at (expression_settles _ (by omega)) fun _ _ r h => ?_
        have := (expression_advances n _).length_le h
        exact extend_settles floor _ (by omega)
      | none =>
        refine bind_congr_at (arguments_settles (by omega)) fun _ _ r h => ?_
        have := (arguments_advances n).length_le h
        exact extend_settles floor _ (by omega)
    · rfl
termination_by 8 * ts.length + 2

theorem extend_settles {n : Nat} {ts : List Terminal} (floor : Precedence) (left : Expr)
    (hn : 4 * ts.length + 1 ≤ n) : Production.extend n floor left ts = extend floor left ts :=
  (extend_unfold floor left hn).trans
    (extend_unfold (n := depth ts) floor left (le_depth (by decide))).symm
termination_by 8 * ts.length + 3

theorem arguments_unfold {n : Nat} {ts : List Terminal} (hn : 4 * ts.length + 3 ≤ n) :
    Production.arguments n ts =
      if ahead ts = .rightParen then
        (do
          let _ ← expect .rightParen
          return [] : Production (List Expr)) ts
      else
        (do
          let value ← expression .lowest
          let values ← moreArguments
          return value :: values : Production (List Expr)) ts := by
  obtain ⟨n, rfl⟩ : ∃ k, n = k + 1 := ⟨n - 1, by omega⟩
  unfold Production.arguments
  split
  · rfl
  · refine bind_congr_at (expression_settles _ (by omega)) fun _ _ r h => ?_
    have := (expression_advances n _).length_le h
    exact bind_congr_at (moreArguments_settles (by omega)) fun _ _ _ _ => rfl
termination_by 8 * ts.length + 6

theorem arguments_settles {n : Nat} {ts : List Terminal} (hn : 4 * ts.length + 3 ≤ n) :
    Production.arguments n ts = arguments ts :=
  (arguments_unfold hn).trans (arguments_unfold (n := depth ts) (le_depth (by decide))).symm
termination_by 8 * ts.length + 7

theorem moreArguments_unfold {n : Nat} {ts : List Terminal} (hn : 4 * ts.length + 1 ≤ n) :
    Production.moreArguments n ts =
      if ahead ts = .comma then
        (do
          let _ ← expect .comma
          let value ← expression .lowest
          let values ← moreArguments
          return value :: values : Production (List Expr)) ts
      else
        (do
          let _ ← expect .rightParen
          return [] : Production (List Expr)) ts := by
  obtain ⟨n, rfl⟩ : ∃ k, n = k + 1 := ⟨n - 1, by omega⟩
  unfold Production.moreArguments
  split
  · refine bind_congr_at rfl fun _ _ r₁ h₁ => ?_
    have := length_lt_of_expect h₁
    refine bind_congr_at (expression_settles _ (by omega)) fun _ _ r₂ h₂ => ?_
    have := (expression_advances n _).length_le h₂
    exact bind_congr_at (moreArguments_settles (by omega)) fun _ _ _ _ => rfl
  · rfl
termination_by 8 * ts.length + 2

theorem moreArguments_settles {n : Nat} {ts : List Terminal} (hn : 4 * ts.length + 1 ≤ n) :
    Production.moreArguments n ts = moreArguments ts :=
  (moreArguments_unfold hn).trans (moreArguments_unfold (n := depth ts) (le_depth (by decide))).symm
termination_by 8 * ts.length + 3

theorem block_unfold {n : Nat} {ts : List Terminal} : 4 * ts.length + 4 ≤ n →
    Production.block n ts =
      match ts with
      | [] => ⟨[⟨.unexpected .rightBrace .endOfInput, 0⟩], .found [] []⟩
      | t :: rest =>
        if t.kind = .rightBrace then ⟨[], .found [] rest⟩
        else
          (do
            let first ← statement
            let others ← block
            return first.toList ++ others : Production (List Stmt)) (t :: rest) := by
  intro hn
  obtain ⟨n, rfl⟩ : ∃ k, n = k + 1 := ⟨n - 1, by omega⟩
  rcases hts : ts with _ | ⟨t, rest⟩
  · rfl
  · have hl : ts.length = rest.length + 1 := by rw [hts, List.length_cons]
    simp only [Production.block, ← hts]
    split
    · rfl
    · refine bind_congr_at (statement_settles (by omega)) fun _ _ r h => ?_
      have := (statement_advances n).length_le h
      exact bind_congr_at (block_settles (by omega)) fun _ _ _ _ => rfl
termination_by 8 * ts.length + 8

theorem block_settles {n : Nat} {ts : List Terminal} (hn : 4 * ts.length + 4 ≤ n) :
    Production.block n ts = block ts :=
  (block_unfold hn).trans (block_unfold (n := depth ts) (le_depth (by decide))).symm
termination_by 8 * ts.length + 9

theorem statement_unfold {n : Nat} {ts : List Terminal} (hn : 4 * ts.length + 3 ≤ n) :
    Production.statement n ts =
      match ahead ts with
      | .letWord =>
        attempt (fun rest closed => if closed then rest else afterSemicolon rest) (do
          let _ ← expect .letWord
          let name ← expect .identifier
          let _ ← expect .assign
          let value ← expression .lowest
          semicolon
          return .binding name value) ts
      | .returnWord =>
        attempt (fun rest _ => rest) (do
          let _ ← expect .returnWord
          let value ← expression .lowest
          semicolon
          return .leave value) ts
      | _ =>
        attempt (fun rest _ => withoutSemicolon rest) (do
          let value ← expression .lowest
          semicolon
          return .expression value) ts := by
  obtain ⟨n, rfl⟩ : ∃ k, n = k + 1 := ⟨n - 1, by omega⟩
  unfold Production.statement
  cases ahead ts with
  | letWord =>
    refine attempt_congr_at _ (bind_congr_at rfl fun _ _ r₁ h₁ => bind_congr_at rfl
      fun _ _ r₂ h₂ => bind_congr_at rfl fun _ _ r₃ h₃ => ?_)
    have := length_lt_of_expect h₁
    have := length_lt_of_expect h₂
    have := length_lt_of_expect h₃
    exact bind_congr_at (expression_settles _ (by omega)) fun _ _ _ _ => rfl
  | returnWord =>
    refine attempt_congr_at _ (bind_congr_at rfl fun _ _ r₁ h₁ => ?_)
    have := length_lt_of_expect h₁
    exact bind_congr_at (expression_settles _ (by omega)) fun _ _ _ _ => rfl
  | _ =>
    exact attempt_congr_at _
      (bind_congr_at (expression_settles _ (by omega)) fun _ _ _ _ => rfl)
termination_by 8 * ts.length + 6

theorem statement_settles {n : Nat} {ts : List Terminal} (hn : 4 * ts.length + 3 ≤ n) :
    Production.statement n ts = statement ts :=
  (statement_unfold hn).trans (statement_unfold (n := depth ts) (le_depth (by decide))).symm
termination_by 8 * ts.length + 7

end

theorem statements_unfold {n : Nat} {ts : List Terminal} : 4 * ts.length + 4 ≤ n →
    Production.statements n ts =
      match ts with
      | [] => ⟨[], .found [] []⟩
      | t :: rest =>
        (do
          let first ← statement
          let others ← statements
          return first.toList ++ others : Production (List Stmt)) (t :: rest) := by
  intro hn
  obtain ⟨n, rfl⟩ : ∃ k, n = k + 1 := ⟨n - 1, by omega⟩
  rcases hts : ts with _ | ⟨t, rest⟩
  · rfl
  · have hl : ts.length = rest.length + 1 := by rw [hts, List.length_cons]
    simp only [Production.statements, ← hts]
    refine bind_congr_at (statement_settles (by omega)) fun _ _ r h => ?_
    have := (statement_advances n).length_le h
    refine bind_congr_at ?_ fun _ _ _ _ => rfl
    exact (statements_unfold (by omega)).trans
      (statements_unfold (n := depth r) (le_depth (by decide))).symm
termination_by ts.length

theorem statements_settles {n : Nat} {ts : List Terminal} (hn : 4 * ts.length + 4 ≤ n) :
    Production.statements n ts = statements ts :=
  (statements_unfold hn).trans (statements_unfold (n := depth ts) (le_depth (by decide))).symm

/-! ## The equations -/

section
variable {l x : String} {t : Terminal} {ts rest : List Terminal} {floor : Precedence} {left : Expr}

theorem moreParameters_comma :
    moreParameters (⟨.comma, l⟩ :: rest) =
      (do
        let name ← expect .identifier
        let names ← moreParameters
        return name :: names : Production (List String)) rest := by
  rw [moreParameters, moreParameters_unfold (by unfold depth; omega), ahead_cons, if_pos rfl,
    expect_bind]

theorem moreParameters_end (h : ahead ts ≠ .comma) :
    moreParameters ts =
      (do
        let _ ← expect .rightParen
        return [] : Production (List String)) ts := by
  rw [moreParameters, moreParameters_unfold (by unfold depth; omega), if_neg h]

theorem parameters_none : parameters (⟨.rightParen, l⟩ :: rest) = ⟨[], .found [] rest⟩ := rfl

theorem parameters_some (h : ahead ts ≠ .rightParen) :
    parameters ts =
      (do
        let name ← expect .identifier
        let names ← moreParameters
        return name :: names : Production (List String)) ts := by
  rw [parameters, parameters_unfold (by unfold depth; omega), if_neg h]

theorem expression_eq (floor : Precedence) :
    expression floor = (do
      let left ← operand
      extend floor left) :=
  funext fun _ => expression_unfold floor (le_depth (by decide))

theorem operand_identifier :
    operand (⟨.identifier, x⟩ :: rest) = ⟨[], .found (.identifier x) rest⟩ := rfl

theorem operand_integer :
    operand (⟨.integer, x⟩ :: rest) = integer (⟨.integer, x⟩ :: rest) := rfl

theorem operand_string : operand (⟨.string, x⟩ :: rest) = ⟨[], .found (.string x) rest⟩ := rfl

theorem operand_true : operand (⟨.trueWord, l⟩ :: rest) = ⟨[], .found (.boolean true) rest⟩ := rfl

theorem operand_false :
    operand (⟨.falseWord, l⟩ :: rest) = ⟨[], .found (.boolean false) rest⟩ := rfl

theorem operand_unary {kind : Kind} {operator : UnaryOperator}
    (h : UnaryOperator.ofKind? kind = some operator) :
    operand (⟨kind, l⟩ :: rest) = (Expr.unary operator <$> expression .unary) rest := by
  cases kind <;> simp only [UnaryOperator.ofKind?, reduceCtorEq, Option.some.injEq] at h <;>
    subst h <;> exact operand_unfold (le_depth (by decide))

theorem operand_group :
    operand (⟨.leftParen, l⟩ :: rest) =
      (do
        let inner ← expression .lowest
        let _ ← expect .rightParen
        return inner : Production Expr) rest :=
  operand_unfold (le_depth (by decide))

theorem operand_conditional :
    operand (⟨.ifWord, l⟩ :: rest) =
      (do
        let _ ← expect .leftParen
        let condition ← expression .lowest
        let _ ← expect .rightParen
        let _ ← expect .leftBrace
        let consequence ← block
        let alternative ← behind .elseWord (do
          let _ ← expect .leftBrace
          block)
        return .conditional condition consequence alternative : Production Expr) rest :=
  operand_unfold (le_depth (by decide))

theorem operand_function :
    operand (⟨.function, l⟩ :: rest) =
      (do
        let _ ← expect .leftParen
        let names ← parameters
        let _ ← expect .leftBrace
        let body ← block
        return .function names body : Production Expr) rest :=
  operand_unfold (le_depth (by decide))

/-- An expression ends where nothing binds more tightly than the floor. -/
theorem extend_stop (h : ¬ floor < (ahead ts).precedence) :
    extend floor left ts = ⟨[], .found left ts⟩ := by
  rw [extend, extend_unfold floor left (le_depth (by decide))]
  cases ts with
  | nil => rfl
  | cons t rest => exact if_neg h

theorem extend_operator {operator : BinaryOperator}
    (ho : BinaryOperator.ofKind? t.kind = some operator) (h : floor < t.kind.precedence) :
    extend floor left (t :: rest) =
      (do
        let right ← expression operator.precedence
        extend floor (.binary operator left right) : Production Expr) rest := by
  rw [extend, extend_unfold floor left (le_depth (by decide))]
  simp only [if_pos h, ho]

theorem extend_call (h : floor < .call) :
    extend floor left (⟨.leftParen, l⟩ :: rest) =
      (do
        let values ← arguments
        extend floor (.call left values) : Production Expr) rest := by
  rw [extend, extend_unfold floor left (le_depth (by decide))]
  exact if_pos h

theorem arguments_none : arguments (⟨.rightParen, l⟩ :: rest) = ⟨[], .found [] rest⟩ := rfl

theorem arguments_some (h : ahead ts ≠ .rightParen) :
    arguments ts =
      (do
        let value ← expression .lowest
        let values ← moreArguments
        return value :: values : Production (List Expr)) ts := by
  rw [arguments, arguments_unfold (le_depth (by decide)), if_neg h]

theorem moreArguments_comma :
    moreArguments (⟨.comma, l⟩ :: rest) =
      (do
        let value ← expression .lowest
        let values ← moreArguments
        return value :: values : Production (List Expr)) rest := by
  rw [moreArguments, moreArguments_unfold (le_depth (by decide)), ahead_cons, if_pos rfl,
    expect_bind]

theorem moreArguments_end (h : ahead ts ≠ .comma) :
    moreArguments ts =
      (do
        let _ ← expect .rightParen
        return [] : Production (List Expr)) ts := by
  rw [moreArguments, moreArguments_unfold (le_depth (by decide)), if_neg h]

theorem block_end : block (⟨.rightBrace, l⟩ :: rest) = ⟨[], .found [] rest⟩ := rfl

theorem block_cons (h : t.kind ≠ .rightBrace) :
    block (t :: rest) =
      (do
        let first ← statement
        let others ← block
        return first.toList ++ others : Production (List Stmt)) (t :: rest) := by
  rw [block, block_unfold (le_depth (by decide))]
  exact if_neg h

theorem statement_binding :
    statement (⟨.letWord, l⟩ :: rest) =
      attempt (fun rest closed => if closed then rest else afterSemicolon rest) (do
        let name ← expect .identifier
        let _ ← expect .assign
        let value ← expression .lowest
        semicolon
        return .binding name value) rest := by
  rw [statement, statement_unfold (le_depth (by decide))]
  exact attempt_congr_at _ (expect_bind _ l _ rest)

theorem statement_leave :
    statement (⟨.returnWord, l⟩ :: rest) =
      attempt (fun rest _ => rest) (do
        let value ← expression .lowest
        semicolon
        return .leave value) rest := by
  rw [statement, statement_unfold (le_depth (by decide))]
  exact attempt_congr_at _ (expect_bind _ l _ rest)

theorem statement_expression (hl : ahead ts ≠ .letWord) (hr : ahead ts ≠ .returnWord) :
    statement ts =
      attempt (fun rest _ => withoutSemicolon rest) (do
        let value ← expression .lowest
        semicolon
        return .expression value) ts := by
  rw [statement, statement_unfold (le_depth (by decide))]
  split
  · contradiction
  · contradiction
  · rfl

theorem statements_nil : statements [] = ⟨[], .found [] []⟩ := rfl

theorem statements_cons :
    statements (t :: rest) =
      (do
        let first ← statement
        let others ← statements
        return first.toList ++ others : Production (List Stmt)) (t :: rest) := by
  rw [statements, statements_unfold (le_depth (by decide))]

end

/-! ## Statements are always found -/

/-- Behind a statement that could not be read there is nothing or the next statement: reading one
never fails. -/
theorem statement_found (ts : List Terminal) :
    ∃ ms s? rest, statement ts = ⟨ms, .found s? rest⟩ := by
  have hattempt : ∀ (p : Production Stmt) resume us, ∃ ms s? rest,
      attempt resume p us = ⟨ms, .found s? rest⟩ := by
    intro p resume us
    simp only [attempt]
    split
    · exact ⟨_, _, _, rfl⟩
    · exact ⟨_, _, _, rfl⟩
  by_cases hlet : ahead ts = .letWord
  · obtain ⟨w, rest, rfl⟩ := exists_cons_of_ahead hlet
    rw [statement_binding]
    exact hattempt _ _ _
  · by_cases hret : ahead ts = .returnWord
    · obtain ⟨w, rest, rfl⟩ := exists_cons_of_ahead hret
      rw [statement_leave]
      exact hattempt _ _ _
    · rw [statement_expression hlet hret]
      exact hattempt _ _ _

/-- Reading statements never fails and leaves nothing. -/
theorem statements_found (ts : List Terminal) :
    ∃ ms ss, statements ts = ⟨ms, .found ss []⟩ := by
  rcases hts : ts with _ | ⟨t, us⟩
  · exact ⟨[], [], rfl⟩
  · obtain ⟨ms, s?, rest, hs⟩ := statement_found (t :: us)
    have hle := (statement_advances (depth (t :: us))).length_le hs
    have hlt : rest.length < ts.length := by
      rw [hts, List.length_cons]
      exact Nat.lt_succ_of_le hle
    obtain ⟨ns, ss, hrest⟩ := statements_found rest
    rw [statements_cons, bind_of_found hs, bind_of_found hrest]
    exact ⟨_, _, rfl⟩
termination_by ts.length

end Unbounded

/-- A program is what the unbounded production reads. -/
theorem ofTerminals_eq (ts : List Terminal) :
    Program.ofTerminals ts =
      match Unbounded.statements ts with
      | ⟨ms, .found ss rest⟩ => ⟨⟨ss⟩, ms, rest⟩
      | ⟨ms, .failed rest _⟩ => ⟨⟨[]⟩, ms, rest⟩ := rfl

end MonkeyLang.Production
