import MonkeyLang.Proofs.Production.Depth

/-!
# The grammar

The language as a grammar over terminals, without any reader in mind. A derivation is a proof of a
statement such as `IsExpr l ts e`, which says that the terminals `ts` are an expression of level
`l` with the tree `e`. The levels of expressions are stratified: an operator that stands between
operands belongs to one of four levels and groups to the left, operators in front of an operand
bind more tightly, calls more tightly still. Parentheses around an expression leave no node.

A statement may do without its semicolon unless the terminal behind it would go on with the
expression at its end (`continues`).
-/

namespace MonkeyLang

/-- The kind of token that a unary operator is written as. -/
def UnaryOperator.kind : UnaryOperator → Kind
  | not => .bang
  | negate => .minus

/-- The kind of token that a binary operator is written as. -/
def BinaryOperator.kind : BinaryOperator → Kind
  | add => .plus
  | subtract => .minus
  | multiply => .asterisk
  | divide => .slash
  | less => .less
  | greater => .greater
  | equal => .equal
  | notEqual => .notEqual

namespace Grammar

/-- The levels of expressions, the one that binds most loosely first. -/
inductive Level where
  | equality | comparison | sum | product | unary | call | primary
deriving DecidableEq, Repr

namespace Level

/-- The level that binds the next more tightly; there is none above `primary`. -/
def tighter : Level → Level
  | equality => comparison
  | comparison => sum
  | sum => product
  | product => unary
  | unary => call
  | call => primary
  | primary => primary

/-- The operators that stand between the operands of a level. -/
def operators : Level → List BinaryOperator
  | equality => [.equal, .notEqual]
  | comparison => [.less, .greater]
  | sum => [.add, .subtract]
  | product => [.multiply, .divide]
  | unary | call | primary => []

end Level

/-- Would a token of this kind go on with the expression in front of it? -/
def continues : Kind → Bool
  | .leftParen | .plus | .minus | .asterisk | .slash | .less | .greater | .equal | .notEqual => true
  | _ => false

/-- One name or more, with commas between them. -/
inductive IsNames : List Terminal → List String → Prop
  | one {x} : IsNames [⟨.identifier, x⟩] [x]
  | more {x c ts xs} : IsNames ts xs → IsNames (⟨.identifier, x⟩ :: ⟨.comma, c⟩ :: ts) (x :: xs)

/-- The parameters of a function, with commas between them. -/
inductive IsParameters : List Terminal → List String → Prop
  | none : IsParameters [] []
  | some {ts xs} : IsNames ts xs → IsParameters ts xs

mutual

/-- An expression of a level. -/
inductive IsExpr : Level → List Terminal → Expr → Prop
  | tighter {l ts e} : IsExpr l.tighter ts e → IsExpr l ts e
  | binary {l o s ts us a b} : o ∈ l.operators → IsExpr l ts a → IsExpr l.tighter us b →
      IsExpr l (ts ++ ⟨o.kind, s⟩ :: us) (.binary o a b)
  | unary {o s ts a} : IsExpr .unary ts a → IsExpr .unary (⟨o.kind, s⟩ :: ts) (.unary o a)
  | call {p q ts us f as} : IsExpr .call ts f → IsArguments us as →
      IsExpr .call (ts ++ ⟨.leftParen, p⟩ :: (us ++ [⟨.rightParen, q⟩])) (.call f as)
  | identifier {x} : IsExpr .primary [⟨.identifier, x⟩] (.identifier x)
  | integer {d} : Decimal.value d.toList ≤ Decimal.largest →
      IsExpr .primary [⟨.integer, d⟩] (.integer (.ofNat (Decimal.value d.toList)))
  | string {c} : IsExpr .primary [⟨.string, c⟩] (.string c)
  | trueWord {w} : IsExpr .primary [⟨.trueWord, w⟩] (.boolean true)
  | falseWord {w} : IsExpr .primary [⟨.falseWord, w⟩] (.boolean false)
  | group {p q ts e} : IsExpr .equality ts e →
      IsExpr .primary (⟨.leftParen, p⟩ :: (ts ++ [⟨.rightParen, q⟩])) e
  | oneBranch {w p q ts us c a} : IsExpr .equality ts c → IsBlock us a →
      IsExpr .primary (⟨.ifWord, w⟩ :: ⟨.leftParen, p⟩ :: (ts ++ ⟨.rightParen, q⟩ :: us))
        (.conditional c a none)
  | twoBranches {w v p q ts us vs c a b} : IsExpr .equality ts c → IsBlock us a → IsBlock vs b →
      IsExpr .primary
        (⟨.ifWord, w⟩ :: ⟨.leftParen, p⟩ ::
          (ts ++ ⟨.rightParen, q⟩ :: (us ++ ⟨.elseWord, v⟩ :: vs)))
        (.conditional c a (some b))
  | function {w p q ts us xs a} : IsParameters ts xs → IsBlock us a →
      IsExpr .primary (⟨.function, w⟩ :: ⟨.leftParen, p⟩ :: (ts ++ ⟨.rightParen, q⟩ :: us))
        (.function xs a)

/-- One expression or more, with commas between them. -/
inductive IsExprs : List Terminal → List Expr → Prop
  | one {ts e} : IsExpr .equality ts e → IsExprs ts [e]
  | more {c ts us e es} : IsExpr .equality ts e → IsExprs us es →
      IsExprs (ts ++ ⟨.comma, c⟩ :: us) (e :: es)

/-- The arguments of a call, with commas between them. -/
inductive IsArguments : List Terminal → List Expr → Prop
  | none : IsArguments [] []
  | some {ts es} : IsExprs ts es → IsArguments ts es

/-- Statements in braces. -/
inductive IsBlock : List Terminal → List Stmt → Prop
  | braces {p q ts ss} : IsStatements ts ss →
      IsBlock (⟨.leftBrace, p⟩ :: (ts ++ [⟨.rightBrace, q⟩])) ss

/-- A statement without its semicolon. -/
inductive IsStatement : List Terminal → Stmt → Prop
  | binding {w x q ts e} : IsExpr .equality ts e →
      IsStatement (⟨.letWord, w⟩ :: ⟨.identifier, x⟩ :: ⟨.assign, q⟩ :: ts) (.binding x e)
  | leave {w ts e} : IsExpr .equality ts e → IsStatement (⟨.returnWord, w⟩ :: ts) (.leave e)
  | expression {ts e} : IsExpr .equality ts e → IsStatement ts (.expression e)

/-- Statements in a row, each with its semicolon or without it. -/
inductive IsStatements : List Terminal → List Stmt → Prop
  | nil : IsStatements [] []
  | closed {c ts us s ss} : IsStatement ts s → IsStatements us ss →
      IsStatements (ts ++ ⟨.semicolon, c⟩ :: us) (s :: ss)
  | bare {ts us s ss} : IsStatement ts s → continues (Production.ahead us) = false →
      IsStatements us ss → IsStatements (ts ++ us) (s :: ss)

end

/-- A program. -/
def IsProgram (ts : List Terminal) (p : Program) : Prop := IsStatements ts p.statements

/-! ## Levels and binding strength -/

namespace Level

/-- The place of a level among all of them, on the scale of `Precedence.rank`. -/
def rank : Level → Nat
  | equality => 1
  | comparison => 2
  | sum => 3
  | product => 4
  | unary => 5
  | call => 6
  | primary => 7

/-- The loosest level of an expression that is read with a floor. An operator in front of its
operand is read with any floor of an operator. -/
def ofFloor : Precedence → Level
  | .lowest => equality
  | .equality => comparison
  | .comparison => sum
  | .sum => product
  | .product => unary
  | .unary => unary
  | .call => primary

theorem rank_le (l : Level) : l.rank ≤ 7 := by cases l <;> decide

theorem rank_tighter_of_lt {l : Level} (h : l.rank < 7) : l.tighter.rank = l.rank + 1 := by
  cases l <;> first | rfl | exact absurd h (by decide)

theorem rank_le_rank_tighter (l : Level) : l.rank ≤ l.tighter.rank := by cases l <;> decide

theorem rank_equality_le (l : Level) : equality.rank ≤ l.rank := by cases l <;> decide

theorem rank_tighter_le_of_mem {l : Level} {o : BinaryOperator} (h : o ∈ l.operators) :
    l.tighter.rank ≤ unary.rank := by
  revert h
  cases l <;> cases o <;> decide

theorem eq_of_rank_eq {l m : Level} (h : l.rank = m.rank) : l = m := by
  revert h
  cases l <;> cases m <;> decide

end Level

theorem rank_precedence_le (k : Kind) : k.precedence.rank ≤ 6 := by cases k <;> decide

theorem continues_eq (k : Kind) : continues k = decide (0 < k.precedence.rank) := by
  cases k <;> rfl

theorem not_lowest_lt {k : Kind} (h : continues k = false) :
    ¬ Precedence.lowest < k.precedence := by
  rw [continues_eq, decide_eq_false_iff_not] at h
  exact h

theorem ofKind?_unary_kind (o : UnaryOperator) : UnaryOperator.ofKind? o.kind = some o := by
  cases o <;> rfl

theorem ofKind?_binary_kind (o : BinaryOperator) : BinaryOperator.ofKind? o.kind = some o := by
  cases o <;> rfl

theorem kind_of_ofKind? {k : Kind} {o : BinaryOperator} (h : BinaryOperator.ofKind? k = some o) :
    k = o.kind := by
  revert h
  cases k <;> cases o <;> decide

theorem precedence_kind (o : BinaryOperator) : o.kind.precedence = o.precedence := by
  cases o <;> rfl

/-- An operator binds as tightly as its level, and its right operand is of the level above. -/
theorem level_of_mem_operators {l : Level} {o : BinaryOperator} (h : o ∈ l.operators) :
    o.precedence.rank = l.rank ∧ Level.ofFloor o.precedence = l.tighter := by
  revert h
  cases l <;> cases o <;> decide

/-- Whatever is read with a floor at a level of operators between operands, or of calls, binds more
tightly than the floor. -/
theorem lt_of_ofFloor_le {floor p : Precedence} (h : (Level.ofFloor floor).rank ≤ p.rank)
    (hp : p ≠ .unary) : floor < p := by
  revert h hp
  cases floor <;> cases p <;> decide

/-- Every operator belongs to a level. -/
theorem exists_mem_operators (o : BinaryOperator) : ∃ l : Level, o ∈ l.operators := by
  cases o with
  | equal | notEqual => exact ⟨.equality, by decide⟩
  | less | greater => exact ⟨.comparison, by decide⟩
  | add | subtract => exact ⟨.sum, by decide⟩
  | multiply | divide => exact ⟨.product, by decide⟩

/-- An expression of a level is one of every looser level. -/
theorem IsExpr.loosen {l m : Level} {ts : List Terminal} {e : Expr} (h : IsExpr m ts e)
    (hle : l.rank ≤ m.rank) : IsExpr l ts e := by
  by_cases heq : l.rank = m.rank
  · exact Level.eq_of_rank_eq heq ▸ h
  · have := m.rank_le
    have hr := Level.rank_tighter_of_lt (l := l) (by omega)
    exact .tighter (h.loosen (by omega))
termination_by m.rank - l.rank

theorem IsExpr.loosest {l : Level} {ts : List Terminal} {e : Expr} (h : IsExpr l ts e) :
    IsExpr .equality ts e := h.loosen l.rank_equality_le

/-! ## Ends of derivations -/

theorem ahead_append {ts : List Terminal} (h : ts ≠ []) (us : List Terminal) :
    Production.ahead (ts ++ us) = Production.ahead ts := by
  cases ts with
  | nil => contradiction
  | cons => rfl

theorem ne_nil_of_begins {ts : List Terminal} (h : begins (Production.ahead ts) = true) :
    ts ≠ [] := by
  rintro rfl
  cases h

/-- The first terminal of an expression. -/
theorem IsExpr.begins : ∀ {l ts e}, IsExpr l ts e → begins (Production.ahead ts) = true
  | _, _, _, .tighter h => h.begins
  | _, _, _, .binary _ h _ => by rw [ahead_append (ne_nil_of_begins h.begins)]; exact h.begins
  | _, _, _, .unary (o := o) _ => by cases o <;> rfl
  | _, _, _, .call h _ => by rw [ahead_append (ne_nil_of_begins h.begins)]; exact h.begins
  | _, _, _, .identifier | _, _, _, .integer _ | _, _, _, .string | _, _, _, .trueWord
  | _, _, _, .falseWord | _, _, _, .group _ | _, _, _, .oneBranch _ _ | _, _, _, .twoBranches _ _ _
  | _, _, _, .function _ _ => rfl

theorem IsExpr.ne_nil {l : Level} {ts : List Terminal} {e : Expr} (h : IsExpr l ts e) : ts ≠ [] :=
  ne_nil_of_begins h.begins

theorem IsExprs.begins {ts : List Terminal} {es : List Expr} (h : IsExprs ts es) :
    begins (Production.ahead ts) = true := by
  cases h with
  | one h => exact h.begins
  | more h _ =>
    rw [ahead_append h.ne_nil]
    exact h.begins

theorem ne_of_begins {k k' : Kind} (h : begins k = true) (h' : begins k' = false) : k ≠ k' := by
  rintro rfl
  rw [h] at h'
  cases h'

/-- The first terminal of a statement. -/
theorem IsStatement.begins {ts : List Terminal} {s : Stmt} (h : IsStatement ts s) :
    begins (Production.ahead ts) = true ∨ Production.ahead ts = .letWord ∨
      Production.ahead ts = .returnWord := by
  cases h with
  | binding => exact .inr (.inl rfl)
  | leave => exact .inr (.inr rfl)
  | expression h => exact .inl h.begins

/-- No statement begins with a terminal that ends one or belongs to the one in front of it. -/
theorem IsStatement.ahead_ne {ts : List Terminal} {s : Stmt} (h : IsStatement ts s) :
    Production.ahead ts ≠ .semicolon ∧ Production.ahead ts ≠ .rightBrace ∧
      Production.ahead ts ≠ .elseWord ∧ Production.ahead ts ≠ .endOfInput := by
  rcases h.begins with hb | hb | hb
  · refine ⟨?_, ?_, ?_, ?_⟩ <;> intro hk <;> rw [hk] at hb <;> cases hb
  · rw [hb]; decide
  · rw [hb]; decide

theorem IsStatement.ne_nil {ts : List Terminal} {s : Stmt} (h : IsStatement ts s) : ts ≠ [] := by
  rintro rfl
  exact h.ahead_ne.2.2.2 rfl

/-- The kind of the last terminal. -/
def lastKind (ts : List Terminal) : Option Kind := ts.getLast?.map (·.kind)

theorem lastKind_append {us : List Terminal} (h : us ≠ []) (ts : List Terminal) :
    lastKind (ts ++ us) = lastKind us := by
  rw [lastKind, List.getLast?_append, List.getLast?_eq_some_getLast h, lastKind,
    List.getLast?_eq_some_getLast h]
  rfl

theorem lastKind_cons {us : List Terminal} (h : us ≠ []) (t : Terminal) :
    lastKind (t :: us) = lastKind us := lastKind_append h [t]

theorem lastKind_concat (ts : List Terminal) (t : Terminal) : lastKind (ts ++ [t]) = some t.kind :=
  lastKind_append (List.cons_ne_nil _ _) ts

theorem IsBlock.lastKind {ts : List Terminal} {ss : List Stmt} (h : IsBlock ts ss) :
    ts ≠ [] ∧ lastKind ts = some .rightBrace := by
  cases h with
  | braces _ => exact ⟨List.cons_ne_nil _ _, lastKind_concat (_ :: _) _⟩

/-- No expression ends with a semicolon. -/
theorem IsExpr.lastKind_ne : ∀ {l ts e}, IsExpr l ts e → lastKind ts ≠ some .semicolon
  | _, _, _, .tighter h => h.lastKind_ne
  | _, _, _, .binary _ _ h => by
    rw [lastKind_append (List.cons_ne_nil _ _), lastKind_cons h.ne_nil]
    exact h.lastKind_ne
  | _, _, _, .unary h => by
    rw [lastKind_cons h.ne_nil]
    exact h.lastKind_ne
  | _, _, _, .call _ _ => by
    rw [lastKind_append (List.cons_ne_nil _ _), ← List.cons_append, lastKind_concat]
    simp
  | _, _, _, .identifier | _, _, _, .integer _ | _, _, _, .string | _, _, _, .trueWord
  | _, _, _, .falseWord => by simp [lastKind]
  | _, _, _, .group _ => by
    rw [← List.cons_append, lastKind_concat]
    simp
  | _, _, _, .oneBranch _ h | _, _, _, .function _ h => by
    rw [← List.cons_append, ← List.cons_append, lastKind_append (List.cons_ne_nil _ _),
      lastKind_cons h.lastKind.1, h.lastKind.2]
    decide
  | _, _, _, .twoBranches _ _ h => by
    rw [← List.cons_append, ← List.cons_append, lastKind_append (List.cons_ne_nil _ _),
      ← List.cons_append, lastKind_append (List.cons_ne_nil _ _), lastKind_cons h.lastKind.1,
      h.lastKind.2]
    decide

theorem IsStatement.lastKind_ne {ts : List Terminal} {s : Stmt} (h : IsStatement ts s) :
    lastKind ts ≠ some .semicolon := by
  cases h with
  | binding h =>
    rw [lastKind_cons (List.cons_ne_nil _ _), lastKind_cons (List.cons_ne_nil _ _),
      lastKind_cons h.ne_nil]
    exact h.lastKind_ne
  | leave h =>
    rw [lastKind_cons h.ne_nil]
    exact h.lastKind_ne
  | expression h => exact h.lastKind_ne

end Grammar

end MonkeyLang
