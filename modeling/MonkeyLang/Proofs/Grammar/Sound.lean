import MonkeyLang.Proofs.Grammar.Basic

/-!
# What is read without a mistake is derived

`Sound p ts P` says that the production `p`, unless it notes a mistake in `ts`, finds a value
there, and that `P` holds of the terminals read, of the value and of the terminals left. The rules
for it follow the construction of productions: a sequence is sound if its parts are, each where the
part in front of it stopped.

The soundness of the productions of the grammar is one induction on the length of what is read. It
is no `Production.Law`: each production builds a derivation by a rule of its own. An
expression comes with the level of its floor and with what stops it: a terminal that does not bind
more tightly than the floor. This is what makes the growth to the right group to the left.
-/

namespace MonkeyLang.Grammar

open Production.Unbounded
open Production hiding expression operand extend arguments moreArguments block statement statements
  parameters moreParameters

/-- Unless it notes a mistake, `p` finds a value in `ts`, and `P` holds of what it read, of the
value and of what is left. -/
def Sound {α : Type} (p : Production α) (ts : List Terminal)
    (P : List Terminal → α → List Terminal → Prop) : Prop :=
  (p ts).mistakes = [] →
    ∃ a front rest, p ts = ⟨[], .found a rest⟩ ∧ ts = front ++ rest ∧ P front a rest

/-! ## Rules -/

section
variable {α β : Type} {p : Production α} {ts : List Terminal}
  {P Q : List Terminal → α → List Terminal → Prop}

theorem Sound.bind {q : α → Production β} {R : List Terminal → β → List Terminal → Prop}
    (hp : Sound p ts P)
    (hq : ∀ a front rest, ts = front ++ rest → P front a rest →
      Sound (q a) rest fun front' b rest' => R (front ++ front') b rest') :
    Sound (p >>= q) ts R := by
  intro hm
  have hpm : (p ts).mistakes = [] := by
    cases h : p ts with
    | mk ms result =>
      cases result with
      | found a rest =>
        rw [bind_of_found h] at hm
        exact (List.append_eq_nil_iff.1 hm).1
      | failed rest closed =>
        rw [bind_of_failed h] at hm
        exact hm
  obtain ⟨a, front, rest, hrun, hts, ha⟩ := hp hpm
  rw [bind_of_found hrun] at hm ⊢
  obtain ⟨b, front', rest', hrun', hrest, hb⟩ := hq a front rest hts ha hm
  refine ⟨b, front ++ front', rest', ?_, ?_, hb⟩
  · rw [hrun']
    rfl
  · rw [hts, hrest, List.append_assoc]

theorem Sound.pure {a : α} (h : P [] a ts) : Sound (Pure.pure a) ts P :=
  fun _ => ⟨a, [], ts, rfl, rfl, h⟩

theorem Sound.mono (hp : Sound p ts P) (h : ∀ front a rest, P front a rest → Q front a rest) :
    Sound p ts Q := by
  intro hm
  obtain ⟨a, front, rest, hrun, hts, ha⟩ := hp hm
  exact ⟨a, front, rest, hrun, hts, h front a rest ha⟩

theorem Sound.map {f : α → β} {R : List Terminal → β → List Terminal → Prop} (hp : Sound p ts P)
    (h : ∀ front a rest, P front a rest → R front (f a) rest) : Sound (f <$> p) ts R := by
  rw [map_eq_pure_bind]
  refine hp.bind fun a front rest _ ha => .pure ?_
  rw [List.append_nil]
  exact h front a rest ha

/-- A production that goes on behind the first terminal. -/
theorem Sound.behind_first {p' : Production α} {t : Terminal} {rest : List Terminal}
    (heq : p (t :: rest) = p' rest)
    (h : Sound p' rest fun front a rest' => P (t :: front) a rest') : Sound p (t :: rest) P := by
  intro hm
  rw [heq] at hm ⊢
  obtain ⟨a, front, rest', hrun, hts, ha⟩ := h hm
  exact ⟨a, t :: front, rest', hrun, by rw [hts, List.cons_append], ha⟩

theorem Sound.of_eq {p' : Production α} (heq : p ts = p' ts) (h : Sound p' ts P) :
    Sound p ts P := by
  intro hm
  rw [heq] at hm ⊢
  exact h hm

/-- A production that finds a value in the first terminal alone. -/
theorem Sound.of_first {t : Terminal} {rest : List Terminal} {a : α}
    (heq : p (t :: rest) = ⟨[], .found a rest⟩) (h : P [t] a rest) : Sound p (t :: rest) P :=
  fun _ => ⟨a, [t], rest, heq, rfl, h⟩

theorem sound_refuse : Sound (refuse : Production α) ts P := by
  intro hm
  cases ts <;> cases hm

theorem sound_expect (kind : Kind) (ts : List Terminal) :
    Sound (expect kind) ts fun front l _ => front = [⟨kind, l⟩] := by
  intro hm
  cases ts with
  | nil => cases hm
  | cons t rest =>
    obtain ⟨k, l⟩ := t
    by_cases hk : k = kind
    · subst hk
      exact ⟨l, [⟨k, l⟩], rest, if_pos rfl, rfl, rfl⟩
    · simp [expect, hk] at hm

theorem sound_semicolon (ts : List Terminal) :
    Sound semicolon ts fun front _ rest =>
      (∃ c, front = [⟨.semicolon, c⟩]) ∨ (front = [] ∧ rest = ts) := by
  intro _
  cases ts with
  | nil => exact ⟨(), [], [], rfl, rfl, .inr ⟨rfl, rfl⟩⟩
  | cons t rest =>
    obtain ⟨k, l⟩ := t
    by_cases hk : k = .semicolon
    · subst hk
      exact ⟨(), [⟨.semicolon, l⟩], rest, rfl, rfl, .inl ⟨l, rfl⟩⟩
    · refine ⟨(), [], ⟨k, l⟩ :: rest, ?_, rfl, .inr ⟨rfl, rfl⟩⟩
      simp [semicolon, withoutSemicolon, hk]

theorem Sound.behind {kind : Kind} {R : List Terminal → Option α → List Terminal → Prop}
    (hp : ∀ l rest, ts = ⟨kind, l⟩ :: rest →
      Sound p rest fun front a rest' => R (⟨kind, l⟩ :: front) (some a) rest')
    (hn : R [] none ts) : Sound (behind kind p) ts R := by
  cases ts with
  | nil => exact fun _ => ⟨none, [], [], rfl, rfl, hn⟩
  | cons t rest =>
    obtain ⟨k, l⟩ := t
    by_cases hk : k = kind
    · subst hk
      exact .behind_first (if_pos rfl) ((hp l rest rfl).map fun _ _ _ h => h)
    · exact fun _ => ⟨none, [], ⟨k, l⟩ :: rest, if_neg hk, rfl, hn⟩

theorem Sound.attempt {resume : List Terminal → Bool → List Terminal} {p : Production Stmt}
    {P : List Terminal → Stmt → List Terminal → Prop} (hp : Sound p ts P) :
    Sound (attempt resume p) ts fun front s rest => ∃ s', s = some s' ∧ P front s' rest := by
  intro hm
  have hpm : (p ts).mistakes = [] := by
    simp only [Production.attempt] at hm
    split at hm <;> next h => rw [h]; exact hm
  obtain ⟨s, front, rest, hrun, hts, hs⟩ := hp hpm
  refine ⟨some s, front, rest, ?_, hts, s, rfl, hs⟩
  simp only [Production.attempt, hrun]

end

/-! ## Names -/

theorem length_lt_of_append {ts front rest : List Terminal} (h : ts = front ++ rest)
    (hf : front ≠ []) : rest.length < ts.length := by
  have := List.length_pos_iff.2 hf
  rw [h, List.length_append]
  omega

theorem sound_moreParameters (ts : List Terminal) :
    Sound moreParameters ts fun front xs _ => ∃ q,
      (xs = [] ∧ front = [⟨.rightParen, q⟩]) ∨
        ∃ c us, IsNames us xs ∧ front = ⟨.comma, c⟩ :: (us ++ [⟨.rightParen, q⟩]) := by
  by_cases ha : ahead ts = .comma
  · obtain ⟨c, rest, hts⟩ := exists_cons_of_ahead ha
    have hlen : ts.length = rest.length + 1 := by rw [hts, List.length_cons]
    rw [hts]
    refine .behind_first moreParameters_comma ((sound_expect _ rest).bind ?_)
    rintro x _ rest₁ hrest rfl
    have := length_lt_of_append hrest (List.cons_ne_nil _ _)
    refine (sound_moreParameters rest₁).bind ?_
    rintro xs front _ _ ⟨q, ⟨rfl, rfl⟩ | ⟨c', us, hus, rfl⟩⟩
    · exact .pure ⟨q, .inr ⟨c, [⟨.identifier, x⟩], .one, rfl⟩⟩
    · refine .pure ⟨q, .inr ⟨c, ⟨.identifier, x⟩ :: ⟨.comma, c'⟩ :: us, .more hus, ?_⟩⟩
      simp
  · refine .of_eq (moreParameters_end ha) ((sound_expect _ ts).bind ?_)
    rintro q _ _ _ rfl
    exact .pure ⟨q, .inl ⟨rfl, rfl⟩⟩
termination_by ts.length

theorem sound_parameters (ts : List Terminal) :
    Sound parameters ts fun front xs _ =>
      ∃ us q, IsParameters us xs ∧ front = us ++ [⟨.rightParen, q⟩] := by
  by_cases ha : ahead ts = .rightParen
  · obtain ⟨q, rest, rfl⟩ := exists_cons_of_ahead ha
    exact .of_first parameters_none ⟨[], q, .none, rfl⟩
  · refine .of_eq (parameters_some ha) ((sound_expect _ ts).bind ?_)
    rintro x _ rest _ rfl
    refine (sound_moreParameters rest).bind ?_
    rintro xs _ _ _ ⟨q, ⟨rfl, rfl⟩ | ⟨c, us, hus, rfl⟩⟩
    · exact .pure ⟨[⟨.identifier, x⟩], q, .some .one, rfl⟩
    · exact .pure ⟨⟨.identifier, x⟩ :: ⟨.comma, c⟩ :: us, q, .some (.more hus), by simp⟩

/-! ## Derivations -/

/-- What is read for a statement: the statement with a semicolon, or without one in front of a
terminal that cannot go on with it. -/
def IsClosed (front : List Terminal) (s : Stmt) (rest : List Terminal) : Prop :=
  ∃ ts, IsStatement ts s ∧
    ((∃ c, front = ts ++ [⟨.semicolon, c⟩]) ∨ (front = ts ∧ continues (ahead rest) = false))

theorem IsClosed.ne_nil {front rest : List Terminal} {s : Stmt} (h : IsClosed front s rest) :
    front ≠ [] := by
  obtain ⟨ts, hs, ⟨c, rfl⟩ | ⟨rfl, _⟩⟩ := h
  · exact List.append_ne_nil_of_right_ne_nil _ (List.cons_ne_nil _ _)
  · exact hs.ne_nil

/-- A statement in front of other ones. -/
theorem IsClosed.append {front us vs : List Terminal} {s : Stmt} {ss : List Stmt}
    (h : IsClosed front s (us ++ vs)) (hs : IsStatements us ss) :
    IsStatements (front ++ us) (s :: ss) := by
  obtain ⟨ts, ht, ⟨c, rfl⟩ | ⟨rfl, hc⟩⟩ := h
  · rw [List.append_assoc]
    exact .closed ht hs
  · refine .bare ht ?_ hs
    cases us with
    | nil => rfl
    | cons u us => exact hc

/-- An expression is stopped by a terminal that binds no more tightly than its floor. -/
def Stopped (floor : Precedence) (rest : List Terminal) : Prop :=
  (ahead rest).precedence.rank ≤ floor.rank

theorem Stopped.continues {rest : List Terminal} (h : Stopped .lowest rest) :
    continues (ahead rest) = false := by
  rw [continues_eq, decide_eq_false_iff_not]
  exact Nat.not_lt.2 h

/-- An operand is of a level at which operators in front of it are, or more tightly bound, and is
not followed by anything that binds more tightly than it. -/
def IsOperand (front : List Terminal) (e : Expr) (rest : List Terminal) : Prop :=
  ∃ l : Level, Level.unary.rank ≤ l.rank ∧ IsExpr l front e ∧ (ahead rest).precedence.rank ≤ l.rank

theorem isOperand_of_primary {front : List Terminal} {e : Expr} (rest : List Terminal)
    (h : IsExpr .primary front e) : IsOperand front e rest :=
  ⟨.primary, by decide, h, Nat.le_succ_of_le (rank_precedence_le _)⟩

theorem ofFloor_le_of_lt {floor p : Precedence} (h : floor < p) :
    (Level.ofFloor floor).rank ≤ p.rank := by
  revert h
  cases floor <;> cases p <;> decide

theorem ofFloor_le_unary {floor : Precedence} (h : floor ≠ .call) :
    (Level.ofFloor floor).rank ≤ Level.unary.rank := by
  revert h
  cases floor <;> decide

theorem sound_integer (d : String) (rest : List Terminal) :
    Sound integer (⟨.integer, d⟩ :: rest) IsOperand := by
  intro hm
  by_cases hd : Decimal.value d.toList ≤ Decimal.largest
  · refine ⟨_, [⟨.integer, d⟩], rest, ?_, rfl, isOperand_of_primary _ (.integer hd)⟩
    simp only [integer, Decimal.int64?, if_pos hd]
  · simp [integer, Decimal.int64?, hd] at hm

/-- The end of a statement: an expression, and a semicolon if there is one. -/
theorem sound_ending (f : Expr → Stmt) (pre : List Terminal) {ts : List Terminal}
    (h : Sound (expression .lowest) ts fun front e rest =>
      IsExpr .equality front e ∧ Stopped .lowest rest)
    (hf : ∀ {us e}, IsExpr .equality us e → IsStatement (pre ++ us) (f e)) :
    Sound (do
      let value ← expression .lowest
      semicolon
      return f value : Production Stmt) ts fun front s rest => IsClosed (pre ++ front) s rest := by
  refine h.bind ?_
  intro e front rest _ ⟨he, hstop⟩
  refine (sound_semicolon rest).bind ?_
  rintro _ _ rest' _ (⟨c, rfl⟩ | ⟨rfl, rfl⟩)
  · exact .pure ⟨pre ++ front, hf he, .inl ⟨c, by simp⟩⟩
  · exact .pure ⟨pre ++ front, hf he, .inr ⟨by simp, hstop.continues⟩⟩

/-- The statements read up to a brace. -/
def IsBody (front : List Terminal) (ss : List Stmt) : Prop :=
  ∃ us q, IsStatements us ss ∧ front = us ++ [⟨.rightBrace, q⟩]

theorem IsBody.isBlock {front : List Terminal} {ss : List Stmt} (h : IsBody front ss) (p : String) :
    IsBlock (⟨.leftBrace, p⟩ :: front) ss := by
  obtain ⟨us, q, hs, rfl⟩ := h
  exact .braces hs

/-- What is read for the second branch of a conditional, if there is one. -/
def IsAlternative (front : List Terminal) : Option (List Stmt) → Prop
  | none => front = []
  | some ss => ∃ v us, IsBlock us ss ∧ front = ⟨.elseWord, v⟩ :: us

theorem isExpr_conditional {w p q : String} {ts us vs : List Terminal} {c : Expr} {a : List Stmt}
    {b : Option (List Stmt)} (hc : IsExpr .equality ts c) (ha : IsBlock us a)
    (hb : IsAlternative vs b) :
    IsExpr .primary (⟨.ifWord, w⟩ :: ⟨.leftParen, p⟩ :: (ts ++ ⟨.rightParen, q⟩ :: (us ++ vs)))
      (.conditional c a b) := by
  cases b with
  | none =>
    obtain rfl : vs = [] := hb
    rw [List.append_nil]
    exact .oneBranch hc ha
  | some b =>
    obtain ⟨v, vs, hb, rfl⟩ := hb
    exact .twoBranches hc ha hb

mutual

/-- An expression read without a mistake is derived, up to what stops it. -/
theorem sound_expression {floor : Precedence} (hf : floor ≠ .call) (ts : List Terminal) :
    Sound (expression floor) ts fun front e rest =>
      IsExpr (.ofFloor floor) front e ∧ Stopped floor rest := by
  rw [expression_eq]
  refine (sound_operand ts).bind ?_
  intro left front rest hts ⟨l, hl, he, ha⟩
  have := length_lt_of_append hts he.ne_nil
  exact sound_extend (Nat.le_trans (ofFloor_le_unary hf) hl) he ha
termination_by 4 * ts.length + 2

theorem sound_operand (ts : List Terminal) : Sound operand ts IsOperand := by
  rcases hts : ts with _ | ⟨⟨k, w⟩, rest⟩
  · exact sound_refuse
  · have hlen : ts.length = rest.length + 1 := by rw [hts, List.length_cons]
    cases k with
    | identifier => exact .of_first operand_identifier (isOperand_of_primary _ .identifier)
    | string => exact .of_first operand_string (isOperand_of_primary _ .string)
    | trueWord => exact .of_first operand_true (isOperand_of_primary _ .trueWord)
    | falseWord => exact .of_first operand_false (isOperand_of_primary _ .falseWord)
    | integer => exact .of_eq operand_integer (sound_integer w rest)
    | bang =>
      refine .behind_first (operand_unary rfl) ((sound_expression (by decide) rest).map ?_)
      intro front e rest' ⟨he, hstop⟩
      exact ⟨.unary, Nat.le_refl _, @IsExpr.unary .not _ _ _ he, hstop⟩
    | minus =>
      refine .behind_first (operand_unary rfl) ((sound_expression (by decide) rest).map ?_)
      intro front e rest' ⟨he, hstop⟩
      exact ⟨.unary, Nat.le_refl _, @IsExpr.unary .negate _ _ _ he, hstop⟩
    | leftParen =>
      refine .behind_first operand_group ((sound_expression (by decide) rest).bind ?_)
      intro e front rest₁ _ ⟨he, _⟩
      refine (sound_expect _ rest₁).bind ?_
      rintro q _ rest₂ _ rfl
      refine .pure (isOperand_of_primary _ ?_)
      rw [List.append_nil]
      exact .group he
    | ifWord =>
      refine .behind_first operand_conditional ((sound_expect _ rest).bind ?_)
      rintro p _ rest₁ hrest₁ rfl
      have := length_lt_of_append hrest₁ (List.cons_ne_nil _ _)
      refine (sound_expression (by decide) rest₁).bind ?_
      intro c front rest₂ hrest₂ ⟨hc, _⟩
      have := length_lt_of_append hrest₂ hc.ne_nil
      refine (sound_expect _ rest₂).bind ?_
      rintro q _ rest₃ hrest₃ rfl
      have := length_lt_of_append hrest₃ (List.cons_ne_nil _ _)
      refine (sound_expect _ rest₃).bind ?_
      rintro p' _ rest₄ hrest₄ rfl
      have := length_lt_of_append hrest₄ (List.cons_ne_nil _ _)
      refine (sound_block rest₄).bind ?_
      intro a front' rest₅ hrest₅ ha
      have hle : rest₅.length ≤ rest₄.length := by rw [hrest₅, List.length_append]; omega
      refine (Sound.behind (R := fun front b _ => IsAlternative front b) ?_ rfl).bind ?_
      · intro v rest₆ hrest₆
        have : rest₆.length < rest₅.length := by rw [hrest₆, List.length_cons]; omega
        refine (sound_expect _ rest₆).bind ?_
        rintro p'' _ rest₇ hrest₇ rfl
        have := length_lt_of_append hrest₇ (List.cons_ne_nil _ _)
        exact (sound_block rest₇).mono fun _ b _ hb => ⟨v, _, hb.isBlock p'', rfl⟩
      · intro b vs rest₆ _ hb
        refine .pure (isOperand_of_primary _ ?_)
        have := @isExpr_conditional w p q _ _ _ _ _ _ hc (ha.isBlock p') hb
        simpa using this
    | function =>
      refine .behind_first operand_function ((sound_expect _ rest).bind ?_)
      rintro p _ rest₁ hrest₁ rfl
      have := length_lt_of_append hrest₁ (List.cons_ne_nil _ _)
      refine (sound_parameters rest₁).bind ?_
      rintro xs _ rest₂ hrest₂ ⟨ps, q, hps, rfl⟩
      have := length_lt_of_append hrest₂ (by simp)
      refine (sound_expect _ rest₂).bind ?_
      rintro p' _ rest₃ hrest₃ rfl
      have := length_lt_of_append hrest₃ (List.cons_ne_nil _ _)
      refine (sound_block rest₃).bind ?_
      intro a front rest₄ _ ha
      refine .pure (isOperand_of_primary _ ?_)
      have := @IsExpr.function w p q _ _ _ _ hps (ha.isBlock p')
      simpa using this
    | _ => exact sound_refuse
termination_by 4 * ts.length + 1

theorem sound_extend {floor : Precedence} {l : Level} {ls ts : List Terminal} {left : Expr}
    (hf : (Level.ofFloor floor).rank ≤ l.rank) (hl : IsExpr l ls left)
    (ha : (ahead ts).precedence.rank ≤ l.rank) :
    Sound (extend floor left) ts fun front e rest =>
      IsExpr (.ofFloor floor) (ls ++ front) e ∧ Stopped floor rest := by
  by_cases hlt : floor < (ahead ts).precedence
  · rcases hts : ts with _ | ⟨⟨k, w⟩, rest⟩
    · rw [hts] at hlt
      exact absurd hlt (Nat.not_lt_zero _)
    · have hlen : ts.length = rest.length + 1 := by rw [hts, List.length_cons]
      rw [hts, ahead_cons] at hlt ha
      cases ho : BinaryOperator.ofKind? k with
      | some o =>
        obtain rfl := kind_of_ofKind? ho
        rw [precedence_kind] at hlt ha
        obtain ⟨m, hm⟩ := exists_mem_operators o
        obtain ⟨hrank, hfloor⟩ := level_of_mem_operators hm
        refine .behind_first (extend_operator ho ?_) ((sound_expression ?_ rest).bind ?_)
        · rwa [precedence_kind]
        · cases o <;> decide
        · intro right front rest' hrest ⟨hright, hstop⟩
          have := length_lt_of_append hrest hright.ne_nil
          have hleft : IsExpr m ls left := hl.loosen (hrank ▸ ha)
          have hboth := IsExpr.binary (s := w) hm hleft (hfloor ▸ hright)
          refine (sound_extend ?_ hboth ?_).mono ?_
          · exact hrank ▸ ofFloor_le_of_lt hlt
          · exact hrank ▸ hstop
          · intro front' e rest'' ⟨he, hstop⟩
            exact ⟨by simpa using he, hstop⟩
      | none =>
        obtain rfl := Kind.eq_leftParen_of_lt ho hlt
        have hleft : IsExpr .call ls left := hl.loosen ha
        refine .behind_first (extend_call hlt) ((sound_arguments rest).bind ?_)
        rintro values _ rest' hrest ⟨us, q, hargs, rfl⟩
        have := length_lt_of_append hrest (by simp)
        have hcall := IsExpr.call (p := w) (q := q) hleft hargs
        refine (sound_extend ?_ hcall (rank_precedence_le _)).mono ?_
        · exact ofFloor_le_of_lt hlt
        · intro front e rest'' ⟨he, hstop⟩
          exact ⟨by simpa using he, hstop⟩
  · refine .of_eq (extend_stop hlt) (.pure ⟨?_, Nat.not_lt.1 hlt⟩)
    rw [List.append_nil]
    exact hl.loosen hf
termination_by 4 * ts.length

theorem sound_arguments (ts : List Terminal) :
    Sound arguments ts fun front es _ =>
      ∃ us q, IsArguments us es ∧ front = us ++ [⟨.rightParen, q⟩] := by
  by_cases ha : ahead ts = .rightParen
  · obtain ⟨q, rest, hts⟩ := exists_cons_of_ahead ha
    rw [hts]
    exact .of_first arguments_none ⟨[], q, .none, rfl⟩
  · refine .of_eq (arguments_some ha) ((sound_expression (by decide) ts).bind ?_)
    intro e front rest hts ⟨he, _⟩
    have := length_lt_of_append hts he.ne_nil
    refine (sound_moreArguments rest).bind ?_
    rintro es _ _ _ ⟨q, ⟨rfl, rfl⟩ | ⟨c, us, hus, rfl⟩⟩
    · exact .pure ⟨front, q, .some (.one he), by simp⟩
    · exact .pure ⟨front ++ ⟨.comma, c⟩ :: us, q, .some (.more he hus), by simp⟩
termination_by 4 * ts.length + 3

theorem sound_moreArguments (ts : List Terminal) :
    Sound moreArguments ts fun front es _ => ∃ q,
      (es = [] ∧ front = [⟨.rightParen, q⟩]) ∨
        ∃ c us, IsExprs us es ∧ front = ⟨.comma, c⟩ :: (us ++ [⟨.rightParen, q⟩]) := by
  by_cases ha : ahead ts = .comma
  · obtain ⟨c, rest, hts⟩ := exists_cons_of_ahead ha
    have hlen : ts.length = rest.length + 1 := by rw [hts, List.length_cons]
    rw [hts]
    refine .behind_first moreArguments_comma ((sound_expression (by decide) rest).bind ?_)
    intro e front rest₁ hrest ⟨he, _⟩
    have := length_lt_of_append hrest he.ne_nil
    refine (sound_moreArguments rest₁).bind ?_
    rintro es _ _ _ ⟨q, ⟨rfl, rfl⟩ | ⟨c', us, hus, rfl⟩⟩
    · exact .pure ⟨q, .inr ⟨c, front, .one he, by simp⟩⟩
    · exact .pure ⟨q, .inr ⟨c, front ++ ⟨.comma, c'⟩ :: us, .more he hus, by simp⟩⟩
  · refine .of_eq (moreArguments_end ha) ((sound_expect _ ts).bind ?_)
    rintro q _ _ _ rfl
    exact .pure ⟨q, .inl ⟨rfl, rfl⟩⟩
termination_by 4 * ts.length

theorem sound_block (ts : List Terminal) : Sound block ts fun front ss _ => IsBody front ss := by
  rcases hts : ts with _ | ⟨t, rest⟩
  · intro hm
    cases hm
  · have hlen : ts.length = rest.length + 1 := by rw [hts, List.length_cons]
    by_cases hk : t.kind = .rightBrace
    · obtain ⟨k, q⟩ := t
      obtain rfl : k = .rightBrace := hk
      exact .of_first block_end ⟨[], q, .nil, rfl⟩
    · refine .of_eq (block_cons hk) ((sound_statement (t :: rest)).bind ?_)
      rintro _ front rest' hrest ⟨s, rfl, hs⟩
      have : rest'.length ≤ rest.length :=
        Nat.le_of_lt_succ (length_lt_of_append hrest hs.ne_nil)
      refine (sound_block rest').bind ?_
      rintro ss _ rest'' hrest' ⟨us, q, hss, rfl⟩
      rw [hrest', List.append_assoc] at hs
      exact .pure ⟨front ++ us, q, hs.append hss, by simp⟩
termination_by 4 * ts.length + 4

theorem sound_statement (ts : List Terminal) :
    Sound statement ts fun front s? rest => ∃ s, s? = some s ∧ IsClosed front s rest := by
  by_cases hlet : ahead ts = .letWord
  · obtain ⟨w, rest, hts⟩ := exists_cons_of_ahead hlet
    have hlen : ts.length = rest.length + 1 := by rw [hts, List.length_cons]
    rw [hts]
    refine .behind_first statement_binding (.attempt ((sound_expect _ rest).bind ?_))
    rintro x _ rest₁ hrest₁ rfl
    have := length_lt_of_append hrest₁ (List.cons_ne_nil _ _)
    refine (sound_expect _ rest₁).bind ?_
    rintro q _ rest₂ hrest₂ rfl
    have := length_lt_of_append hrest₂ (List.cons_ne_nil _ _)
    exact sound_ending (.binding x) [⟨.letWord, w⟩, ⟨.identifier, x⟩, ⟨.assign, q⟩]
      (sound_expression (by decide) rest₂) fun h => .binding h
  · by_cases hret : ahead ts = .returnWord
    · obtain ⟨w, rest, hts⟩ := exists_cons_of_ahead hret
      have hlen : ts.length = rest.length + 1 := by rw [hts, List.length_cons]
      rw [hts]
      exact .behind_first statement_leave (.attempt (sound_ending .leave [⟨.returnWord, w⟩]
        (sound_expression (by decide) rest) fun h => .leave h))
    · exact .of_eq (statement_expression hlet hret) (.attempt (sound_ending .expression []
        (sound_expression (by decide) ts) fun h => .expression h))
termination_by 4 * ts.length + 3

end

/-- Statements read without a mistake are derived, and nothing is left behind them. -/
theorem sound_statements (ts : List Terminal) :
    Sound statements ts fun front ss rest => rest = [] ∧ IsStatements front ss := by
  rcases hts : ts with _ | ⟨t, rest⟩
  · exact fun _ => ⟨[], [], [], rfl, rfl, rfl, .nil⟩
  · refine .of_eq statements_cons ((sound_statement (t :: rest)).bind ?_)
    rintro _ front rest' hrest ⟨s, rfl, hs⟩
    have : rest'.length ≤ rest.length :=
      Nat.le_of_lt_succ (length_lt_of_append hrest hs.ne_nil)
    refine (sound_statements rest').bind ?_
    rintro ss front' _ hrest' ⟨rfl, hss⟩
    rw [hrest'] at hs
    exact .pure ⟨rfl, by simpa using hs.append hss⟩
termination_by ts.length

end MonkeyLang.Grammar
