import MonkeyLang.Proofs.Grammar.Basic

/-!
# What the grammar derives is read

`IsExpr.reads`: in front of terminals that cannot go on with it, an expression of the grammar is
read to its end, without a mistake, and to its tree. The induction is on derivations, and what it
carries is about the growth to the right (`IsExpr.complete`): reading terminals that derive an
expression comes down to letting that expression grow over what stands behind them. For a binary
operator this is used twice, once with the left operand, behind which the operator stands, and once
with the right operand, which the floor keeps from growing.

`IsStatements.complete` says the same of statements in a row, whatever stands behind them, as long
as the last one has its semicolon or what follows cannot go on with it.
-/

namespace MonkeyLang.Grammar

open Production.Unbounded
open Production hiding expression operand extend arguments moreArguments block statement statements
  parameters moreParameters

/-! ## Steps without mistakes -/

theorem bind_of_clean {α β : Type} {p : Production α} {q : α → Production β}
    {ts rest : List Terminal} {value : α} (h : p ts = ⟨[], .found value rest⟩) :
    (p >>= q) ts = q value rest := by
  rw [bind_of_found h]
  rfl

theorem map_of_clean {α β : Type} {p : Production α} (f : α → β) {ts rest : List Terminal}
    {value : α} (h : p ts = ⟨[], .found value rest⟩) :
    (f <$> p) ts = ⟨[], .found (f value) rest⟩ := by
  rw [map_eq_pure_bind, bind_of_clean h]
  rfl

theorem map_of_map {α β γ : Type} {p : Production β} {p' : Production α} {f : α → β}
    {ts ts' : List Terminal} (g : β → γ) (h : p ts = (f <$> p') ts') :
    (p >>= fun b => pure (g b)) ts = ((fun a => g (f a)) <$> p') ts' := by
  rw [← map_eq_pure_bind, map_congr_at g h, Functor.map_map]

theorem attempt_of_clean {p : Production Stmt} {ts rest : List Terminal} {s : Stmt}
    (resume : List Terminal → Bool → List Terminal) (h : p ts = ⟨[], .found s rest⟩) :
    attempt resume p ts = ⟨[], .found (some s) rest⟩ := by
  simp only [attempt, h]

theorem behind_none {α : Type} {kind : Kind} {p : Production α} {ts : List Terminal}
    (h : ahead ts ≠ kind) : behind kind p ts = ⟨[], .found none ts⟩ := by
  cases ts with
  | nil => rfl
  | cons t rest => exact if_neg h

theorem behind_some {α : Type} {kind : Kind} {p : Production α} {ts rest : List Terminal} {a : α}
    (l : String) (h : p ts = ⟨[], .found a rest⟩) :
    behind kind p (⟨kind, l⟩ :: ts) = ⟨[], .found (some a) rest⟩ := by
  simp only [behind, if_pos]
  exact map_of_clean _ h

theorem expression_of_operand {ts rest : List Terminal} {e : Expr} (floor : Precedence)
    (h : operand ts = ⟨[], .found e rest⟩) : expression floor ts = extend floor e rest := by
  rw [expression_eq, bind_of_clean h]

/-- What may stand behind an expression of a level: nothing that binds more tightly, and no
`else`, which would belong to the expression. -/
def Ends (l : Level) (rest : List Terminal) : Prop :=
  (ahead rest).precedence.rank ≤ l.rank ∧ ahead rest ≠ .elseWord

/-- A terminal that cannot go on with an expression ends every one. -/
theorem ends_of_continues {rest : List Terminal} (hc : continues (ahead rest) = false)
    (he : ahead rest ≠ .elseWord) (l : Level) : Ends l rest := by
  refine ⟨?_, he⟩
  rw [continues_eq, decide_eq_false_iff_not] at hc
  omega

theorem Ends.tighter {l : Level} {rest : List Terminal} (h : Ends l rest) : Ends l.tighter rest :=
  ⟨Nat.le_trans h.1 l.rank_le_rank_tighter, h.2⟩

/-- An expression that is read and cannot grow is found. -/
theorem found_of_extend {floor : Precedence} {ts rest : List Terminal} {e : Expr}
    (h : expression floor ts = extend floor e rest)
    (hs : ¬ floor < (ahead rest).precedence) : expression floor ts = ⟨[], .found e rest⟩ := by
  rw [h, extend_stop hs]

/-! ## Names -/

theorem IsNames.complete : ∀ {ts xs}, IsNames ts xs → ∀ q rest,
    (do
      let name ← expect .identifier
      let names ← moreParameters
      return name :: names : Production (List String)) (ts ++ ⟨.rightParen, q⟩ :: rest) =
        ⟨[], .found xs rest⟩
  | _, _, .one (x := x), q, rest => by
    have hm : moreParameters (⟨.rightParen, q⟩ :: rest) = ⟨[], .found [] rest⟩ := by
      rw [moreParameters_end (by simp), expect_bind]
      rfl
    rw [List.singleton_append, expect_bind, bind_of_clean hm]
    rfl
  | _, _, @IsNames.more x c ts xs h, q, rest => by
    have hm : moreParameters (⟨.comma, c⟩ :: (ts ++ ⟨.rightParen, q⟩ :: rest)) =
        ⟨[], .found xs rest⟩ := by
      rw [moreParameters_comma]
      exact h.complete q rest
    rw [List.cons_append, List.cons_append, expect_bind, bind_of_clean hm]
    rfl

theorem IsParameters.complete {ts xs} (h : IsParameters ts xs) (q : String) (rest : List Terminal) :
    parameters (ts ++ ⟨.rightParen, q⟩ :: rest) = ⟨[], .found xs rest⟩ := by
  cases h with
  | none => exact parameters_none
  | some h =>
    rw [parameters_some (by cases h <;> simp)]
    exact h.complete q rest

/-! ## Statements in a row -/

/-- A production that reads statement after statement until a brace closes them. -/
def ReadsStatements (loop : Production (List Stmt)) : Prop :=
  ∀ t rest, t.kind ≠ .rightBrace →
    loop (t :: rest) =
      (do
        let first ← statement
        let others ← loop
        return first.toList ++ others : Production (List Stmt)) (t :: rest)

/-- Where a statement stands, such a production reads it first. -/
theorem ReadsStatements.step {loop : Production (List Stmt)} (hl : ReadsStatements loop)
    {ts : List Terminal} {s : Stmt} (hs : IsStatement ts s) (rest : List Terminal) :
    loop (ts ++ rest) =
      (do
        let first ← statement
        let others ← loop
        return first.toList ++ others : Production (List Stmt)) (ts ++ rest) := by
  cases ts with
  | nil => exact absurd rfl hs.ne_nil
  | cons t us => exact hl t (us ++ rest) hs.ahead_ne.2.1

theorem readsStatements_block : ReadsStatements block := fun _ _ h => block_cons h

theorem readsStatements_statements : ReadsStatements statements := fun _ _ _ => statements_cons

/-- What follows statements in a row leaves the last of them alone: it has its semicolon, or what
follows can neither go on with it nor be that semicolon. -/
def Settled (ts rest : List Terminal) : Prop :=
  ts = [] ∨ lastKind ts = some .semicolon ∨
    (continues (ahead rest) = false ∧ ahead rest ≠ .semicolon ∧ ahead rest ≠ .elseWord)

theorem settled_of_brace (ts rest : List Terminal) (q : String) :
    Settled ts (⟨.rightBrace, q⟩ :: rest) := .inr (.inr ⟨rfl, by simp, by simp⟩)

theorem Settled.of_append {ts us rest : List Terminal} (h : Settled (ts ++ us) rest) :
    Settled us rest := by
  by_cases hu : us = []
  · exact .inl hu
  · rcases h with h | h | h
    · exact absurd (List.append_eq_nil_iff.1 h).2 hu
    · exact .inr (.inl (lastKind_append hu ts ▸ h))
    · exact .inr (.inr h)

/-- Behind a statement without its semicolon stands nothing that could be taken for a part of
it. -/
theorem Settled.ahead_of_bare {ts us rest : List Terminal} {s : Stmt} {ss : List Stmt}
    (h : Settled (ts ++ us) rest) (hs : IsStatement ts s) (hc : continues (ahead us) = false)
    (hu : IsStatements us ss) :
    continues (ahead (us ++ rest)) = false ∧ ahead (us ++ rest) ≠ .semicolon ∧
      ahead (us ++ rest) ≠ .elseWord := by
  have key : ∀ {vs s} ws, IsStatement vs s → continues (ahead (vs ++ ws)) = false →
      continues (ahead (vs ++ ws ++ rest)) = false ∧ ahead (vs ++ ws ++ rest) ≠ .semicolon ∧
        ahead (vs ++ ws ++ rest) ≠ .elseWord := by
    intro vs s ws hv hc
    rw [List.append_assoc, ahead_append hv.ne_nil]
    rw [ahead_append hv.ne_nil] at hc
    exact ⟨hc, hv.ahead_ne.1, hv.ahead_ne.2.2.1⟩
  cases hu with
  | nil =>
    rcases h with h | h | h
    · exact absurd (List.append_eq_nil_iff.1 h).1 hs.ne_nil
    · rw [List.append_nil] at h
      exact absurd h hs.lastKind_ne
    · exact h
  | closed hv _ => exact key _ hv hc
  | bare hv _ _ => exact key _ hv hc

theorem withoutSemicolon_of_ahead {ts : List Terminal} (h : ahead ts ≠ .semicolon) :
    withoutSemicolon ts = ts := by
  cases ts with
  | nil => rfl
  | cons t rest => exact if_neg h

/-! ## Derivations -/

theorem reads_of_complete {ts : List Terminal} {e : Expr} (rest : List Terminal)
    (h : ∀ (floor : Precedence) (rest : List Terminal),
      (Level.ofFloor floor).rank ≤ Level.equality.rank → Ends .equality rest →
        expression floor (ts ++ rest) = extend floor e rest)
    (hc : continues (ahead rest) = false) (he : ahead rest ≠ .elseWord) :
    expression .lowest (ts ++ rest) = ⟨[], .found e rest⟩ :=
  found_of_extend (h .lowest rest (Nat.le_refl _) (ends_of_continues hc he _)) (not_lowest_lt hc)

theorem readsBlock_of_complete {ts : List Terminal} {ss : List Stmt}
    (h : ∀ {loop}, ReadsStatements loop → ∀ rest, Settled ts rest →
      loop (ts ++ rest) = ((ss ++ ·) <$> loop) rest) (q : String) (rest : List Terminal) :
    block (ts ++ ⟨.rightBrace, q⟩ :: rest) = ⟨[], .found ss rest⟩ := by
  rw [h readsStatements_block _ (settled_of_brace ts rest q), map_of_clean _ block_end,
    List.append_nil]

mutual

/-- Reading an expression comes down to letting it grow over what stands behind it. -/
theorem IsExpr.complete : ∀ {l ts e}, IsExpr l ts e → ∀ (floor : Precedence) (rest : List Terminal),
    (Level.ofFloor floor).rank ≤ l.rank → Ends l rest →
      expression floor (ts ++ rest) = extend floor e rest
  | l, _, _, .tighter h, floor, rest, hf, hr =>
    h.complete floor rest (Nat.le_trans hf l.rank_le_rank_tighter) hr.tighter
  | l, _, _, @IsExpr.binary _ o s ts us a b ho ha hb, floor, rest, hf, hr => by
    obtain ⟨hrank, hfloor⟩ := level_of_mem_operators ho
    have hlt : floor < o.precedence := by
      refine lt_of_ofFloor_le (hrank ▸ hf) ?_
      cases o <;> decide
    have hstop : ¬ o.precedence < (ahead rest).precedence := by
      rw [Precedence.lt_iff, hrank]
      exact Nat.not_lt.2 hr.1
    have hright : expression o.precedence (us ++ rest) = ⟨[], .found b rest⟩ :=
      found_of_extend (hb.complete _ rest (hfloor ▸ Nat.le_refl _) hr.tighter) hstop
    have hsame : o.kind.precedence.rank = l.rank := by rw [precedence_kind, hrank]
    have hends : Ends l (⟨o.kind, s⟩ :: (us ++ rest)) :=
      ⟨Nat.le_of_eq hsame, by cases o <;> simp [BinaryOperator.kind]⟩
    rw [List.append_assoc, List.cons_append, ha.complete floor _ hf hends,
      extend_operator (ofKind?_binary_kind o) (precedence_kind o ▸ hlt), bind_of_clean hright]
  | _, _, _, @IsExpr.unary o s ts a h, floor, rest, _, hr => by
    have hstop : ¬ Precedence.unary < (ahead rest).precedence := by
      rw [Precedence.lt_iff]
      exact Nat.not_lt.2 hr.1
    have hin : expression .unary (ts ++ rest) = ⟨[], .found a rest⟩ :=
      found_of_extend (h.complete _ rest (Nat.le_refl _) hr) hstop
    refine expression_of_operand floor ?_
    rw [List.cons_append, operand_unary (ofKind?_unary_kind o), map_of_clean _ hin]
  | _, _, _, @IsExpr.call p q ts us f as hc ha, floor, rest, hf, hr => by
    have hargs : arguments (us ++ ⟨.rightParen, q⟩ :: rest) = ⟨[], .found as rest⟩ :=
      ha.complete q rest
    have hends : Ends .call (⟨.leftParen, p⟩ :: (us ++ ⟨.rightParen, q⟩ :: rest)) :=
      ⟨Nat.le_refl _, by simp⟩
    have hlt : floor < .call := lt_of_ofFloor_le hf (by decide)
    simp only [List.append_assoc, List.cons_append, List.nil_append]
    rw [hc.complete floor _ hf hends, extend_call hlt, bind_of_clean hargs]
  | _, _, _, .identifier, floor, rest, _, _ => expression_of_operand floor operand_identifier
  | _, _, _, .integer (d := d) h, floor, rest, _, _ => by
    refine expression_of_operand floor ?_
    rw [List.singleton_append, operand_integer]
    simp only [integer, Decimal.int64?, if_pos h]
  | _, _, _, .string, floor, rest, _, _ => expression_of_operand floor operand_string
  | _, _, _, .trueWord, floor, rest, _, _ => expression_of_operand floor operand_true
  | _, _, _, .falseWord, floor, rest, _, _ => expression_of_operand floor operand_false
  | _, _, _, @IsExpr.group p q ts e h, floor, rest, _, _ => by
    have hin := reads_of_complete (⟨.rightParen, q⟩ :: rest) h.complete rfl (by simp)
    refine expression_of_operand floor ?_
    simp only [List.append_assoc, List.cons_append, List.nil_append]
    rw [operand_group, bind_of_clean hin, expect_bind]
    rfl
  | _, _, _, @IsExpr.oneBranch w p q ts _ c a hc (@IsBlock.braces p' q' us _ ha), floor, rest, _,
      hr => by
    have hcond := reads_of_complete (⟨.rightParen, q⟩ :: ⟨.leftBrace, p'⟩ :: (us ++
      ⟨.rightBrace, q'⟩ :: rest)) hc.complete rfl (by simp)
    have hblock := readsBlock_of_complete ha.complete q' rest
    refine expression_of_operand floor ?_
    simp only [List.append_assoc, List.cons_append, List.nil_append]
    rw [operand_conditional, expect_bind, bind_of_clean hcond, expect_bind, expect_bind,
      bind_of_clean hblock, bind_of_clean (behind_none hr.2)]
    rfl
  | _, _, _, @IsExpr.twoBranches w v p q ts _ _ c a b hc (@IsBlock.braces p' q' us _ ha)
      (@IsBlock.braces p'' q'' vs _ hb), floor, rest, _, _ => by
    have hcond := reads_of_complete (⟨.rightParen, q⟩ :: ⟨.leftBrace, p'⟩ :: (us ++
      ⟨.rightBrace, q'⟩ :: ⟨.elseWord, v⟩ :: ⟨.leftBrace, p''⟩ :: (vs ++
      ⟨.rightBrace, q''⟩ :: rest))) hc.complete rfl (by simp)
    have hblock := readsBlock_of_complete ha.complete q'
      (⟨.elseWord, v⟩ :: ⟨.leftBrace, p''⟩ :: (vs ++ ⟨.rightBrace, q''⟩ :: rest))
    have helse : behind .elseWord (expect .leftBrace >>= fun _ => block) (⟨.elseWord, v⟩ ::
        ⟨.leftBrace, p''⟩ :: (vs ++ ⟨.rightBrace, q''⟩ :: rest)) = ⟨[], .found (some b) rest⟩ := by
      refine behind_some v ?_
      rw [expect_bind, readsBlock_of_complete hb.complete q'' rest]
    refine expression_of_operand floor ?_
    simp only [List.append_assoc, List.cons_append, List.nil_append]
    rw [operand_conditional, expect_bind, bind_of_clean hcond, expect_bind, expect_bind,
      bind_of_clean hblock, bind_of_clean helse]
    rfl
  | _, _, _, @IsExpr.function w p q ts _ xs a hp (@IsBlock.braces p' q' us _ ha), floor, rest, _,
      _ => by
    have hparams := hp.complete q (⟨.leftBrace, p'⟩ :: (us ++ ⟨.rightBrace, q'⟩ :: rest))
    have hblock := readsBlock_of_complete ha.complete q' rest
    refine expression_of_operand floor ?_
    simp only [List.append_assoc, List.cons_append, List.nil_append]
    rw [operand_function, expect_bind, bind_of_clean hparams, expect_bind, bind_of_clean hblock]
    rfl

theorem IsExprs.complete : ∀ {ts es}, IsExprs ts es → ∀ q rest,
    (do
      let value ← expression .lowest
      let values ← moreArguments
      return value :: values : Production (List Expr)) (ts ++ ⟨.rightParen, q⟩ :: rest) =
        ⟨[], .found es rest⟩
  | _, _, .one h, q, rest => by
    have hm : moreArguments (⟨.rightParen, q⟩ :: rest) = ⟨[], .found [] rest⟩ := by
      rw [moreArguments_end (by simp), expect_bind]
      rfl
    rw [bind_of_clean (reads_of_complete _ h.complete rfl (by simp)), bind_of_clean hm]
    rfl
  | _, _, @IsExprs.more c ts us e es h hs, q, rest => by
    have hm : moreArguments (⟨.comma, c⟩ :: (us ++ ⟨.rightParen, q⟩ :: rest)) =
        ⟨[], .found es rest⟩ := by
      rw [moreArguments_comma]
      exact hs.complete q rest
    rw [List.append_assoc, List.cons_append,
      bind_of_clean (reads_of_complete _ h.complete rfl (by simp)), bind_of_clean hm]
    rfl

theorem IsArguments.complete : ∀ {ts es}, IsArguments ts es → ∀ q rest,
    arguments (ts ++ ⟨.rightParen, q⟩ :: rest) = ⟨[], .found es rest⟩
  | _, _, .none, q, rest => arguments_none
  | _, _, .some h, q, rest => by
    have hb := h.begins
    rw [arguments_some (ahead_append (ne_nil_of_begins hb) _ ▸ ne_of_begins hb rfl)]
    exact h.complete q rest

/-- A statement is read up to the semicolon behind it. -/
theorem IsStatement.complete : ∀ {ts s}, IsStatement ts s → ∀ rest,
    continues (ahead rest) = false → ahead rest ≠ .elseWord →
      statement (ts ++ rest) = ⟨[], .found (some s) (withoutSemicolon rest)⟩
  | _, _, @IsStatement.binding w x q ts e h, rest, hc, he => by
    simp only [List.cons_append]
    rw [statement_binding]
    refine attempt_of_clean _ ?_
    rw [expect_bind, expect_bind, bind_of_clean (reads_of_complete _ h.complete hc he)]
    rfl
  | _, _, .leave h, rest, hc, he => by
    rw [List.cons_append, statement_leave]
    refine attempt_of_clean _ ?_
    rw [bind_of_clean (reads_of_complete _ h.complete hc he)]
    rfl
  | _, _, .expression h, rest, hc, he => by
    have ha := ahead_append h.ne_nil rest
    rw [statement_expression (ha ▸ ne_of_begins h.begins rfl) (ha ▸ ne_of_begins h.begins rfl)]
    refine attempt_of_clean _ ?_
    rw [bind_of_clean (reads_of_complete _ h.complete hc he)]
    rfl

/-- Statements in a row are read one after the other, whatever reads on behind them. -/
theorem IsStatements.complete : ∀ {ts ss}, IsStatements ts ss →
    ∀ {loop}, ReadsStatements loop → ∀ rest, Settled ts rest →
      loop (ts ++ rest) = ((ss ++ ·) <$> loop) rest
  | _, _, .nil, loop, _, rest, _ => by
    rw [List.nil_append]
    exact congrFun (id_map' loop).symm rest
  | _, _, @IsStatements.closed c ts us s ss h hs, loop, hl, rest, hr => by
    have hfirst : statement (ts ++ (⟨.semicolon, c⟩ :: (us ++ rest))) =
        ⟨[], .found (some s) (us ++ rest)⟩ := h.complete _ rfl (by simp)
    have hset : Settled us rest := (List.append_cons ts _ us ▸ hr).of_append
    rw [List.append_assoc, List.cons_append, hl.step h, bind_of_clean hfirst]
    exact map_of_map _ (hs.complete hl rest hset)
  | _, _, @IsStatements.bare ts us s ss h hc hs, loop, hl, rest, hr => by
    obtain ⟨hc', hne, he⟩ := hr.ahead_of_bare h hc hs
    have hfirst : statement (ts ++ (us ++ rest)) = ⟨[], .found (some s) (us ++ rest)⟩ := by
      rw [h.complete _ hc' he, withoutSemicolon_of_ahead hne]
    rw [List.append_assoc, hl.step h, bind_of_clean hfirst]
    exact map_of_map _ (hs.complete hl rest hr.of_append)

end

/-- An expression is read to its end and to its tree, if what stands behind it cannot go on. -/
theorem IsExpr.reads {ts rest : List Terminal} {e : Expr} (h : IsExpr .equality ts e)
    (hc : continues (ahead rest) = false) (he : ahead rest ≠ .elseWord) :
    expression .lowest (ts ++ rest) = ⟨[], .found e rest⟩ :=
  reads_of_complete _ h.complete hc he

end MonkeyLang.Grammar
