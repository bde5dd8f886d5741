import Mathlib.Data.List.Forall2
import MonkeyLang.Proofs.Parser.Refinement

/-!
# Two parsers in lockstep

Two parsers are alike (`Tape.Alike`) if the tokens in front of them have the same kinds and the same
literals, and the errors that they have noted have the same causes and the spans of tokens with the
same place. Where the tokens stand, what separates them and where the sources end may differ.

Alike parsers see the same kinds, so an action takes the same way on both: it comes to the same
value or to none, and leaves alike parsers behind (`Tape.Lockstep`). Single steps do so, sequences
of such actions do, and so by induction on the depth of calls do all actions of the grammar
(`Tape.allLockstep`), and so does parsing (`parse_lockstep`). The spans of two errors are compared
where the error is noted, the one place at which a span is looked at.
-/

namespace MonkeyLang

namespace Tape

variable {T T' : Tape} {α β : Type} {p p' : Parser} {us us' : List Token}

/-! ## Alike parsers -/

/-- The errors have one cause, and the spans of tokens with one place. -/
def Matches (T T' : Tape) (e e' : SyntaxError) : Prop :=
  e.cause = e'.cause ∧ ∃ (k : Nat) (t t' : Token), T.stream[k]? = some t ∧
    T'.stream[k]? = some t' ∧ e.span = t.span ∧ e'.span = t'.span

/-- The tokens in front of the parsers have the same terminals, and their errors match. -/
structure Alike (T T' : Tape) (p p' : Parser) : Prop where
  length_eq : T.tokens.length = T'.tokens.length
  shown : ∃ us us', T.Shows p us ∧ T'.Shows p' us' ∧
    us.map Token.toTerminal = us'.map Token.toTerminal
  errors : List.Forall₂ (Matches T T') p.errors.toList p'.errors.toList

/-- Readers of the same terminals have alike parsers. -/
theorem alike_ofReader {r r' : Reader}
    (h : r.remaining.map Token.toTerminal = r'.remaining.map Token.toTerminal) :
    (ofReader r).Alike (ofReader r') (.ofReader r) (.ofReader r') := by
  refine ⟨?_, ⟨_, _, shows_ofReader r, shows_ofReader r', h⟩, .nil⟩
  have hlength := congrArg List.length h
  rwa [List.length_map, List.length_map] at hlength

theorem toTerminal_headD (h : us.map Token.toTerminal = us'.map Token.toTerminal) :
    (us.headD T.mark).toTerminal = (us'.headD T'.mark).toTerminal := by
  cases us <;> cases us'
  · rfl
  · cases h
  · cases h
  · exact (List.cons.inj h).1

namespace Alike

theorem current_eq (h : T.Alike T' p p') : p.current.toTerminal = p'.current.toTerminal := by
  obtain ⟨us, us', hs, hs', heq⟩ := h.shown
  rw [hs.current_eq, hs'.current_eq]
  exact toTerminal_headD heq

theorem peek_eq (h : T.Alike T' p p') : p.peek.toTerminal = p'.peek.toTerminal := by
  obtain ⟨us, us', hs, hs', heq⟩ := h.shown
  rw [hs.peek_eq, hs'.peek_eq]
  exact toTerminal_headD (by rw [List.map_tail, List.map_tail, heq])

theorem current_kind (h : T.Alike T' p p') : p.current.kind = p'.current.kind :=
  congrArg Terminal.kind h.current_eq

theorem current_literal (h : T.Alike T' p p') : p.current.literal = p'.current.literal :=
  congrArg Terminal.literal h.current_eq

theorem peek_kind (h : T.Alike T' p p') : p.peek.kind = p'.peek.kind :=
  congrArg Terminal.kind h.peek_eq

theorem advance (h : T.Alike T' p p') : T.Alike T' p.advance p'.advance := by
  obtain ⟨us, us', hs, hs', heq⟩ := h.shown
  refine ⟨h.length_eq, ⟨_, _, hs.advance, hs'.advance, ?_⟩, h.errors⟩
  rw [List.map_tail, List.map_tail, heq]

theorem finish (h : T.Alike T' p p') : T.Alike T' p.finish p'.finish := by
  obtain ⟨us, us', hs, hs', -⟩ := h.shown
  exact ⟨h.length_eq, ⟨[], [], hs.finish, hs'.finish, rfl⟩, h.errors⟩

/-- An error about the first tokens of two ends with the same terminals. -/
theorem matches_headD (hlength : T.tokens.length = T'.tokens.length) (hus : us <:+ T.tokens)
    (hus' : us' <:+ T'.tokens) (heq : us.map Token.toTerminal = us'.map Token.toTerminal)
    (cause : SyntaxError.Cause) :
    T.Matches T' ⟨cause, (us.headD T.mark).span⟩ ⟨cause, (us'.headD T'.mark).span⟩ := by
  have hleft : us.length = us'.length := by
    have := congrArg List.length heq
    rwa [List.length_map, List.length_map] at this
  have hplace : T'.place us'.length = T.place us.length := by rw [place, place, hlength, hleft]
  exact ⟨rfl, T.place us.length, _, _, stream_place hus, hplace ▸ stream_place hus', rfl, rfl⟩

theorem note_current (h : T.Alike T' p p') (cause : SyntaxError.Cause) :
    T.Alike T' (p.note cause p.current) (p'.note cause p'.current) := by
  obtain ⟨us, us', hs, hs', heq⟩ := h.shown
  refine ⟨h.length_eq, ⟨us, us', hs.note _ _, hs'.note _ _, heq⟩, ?_⟩
  rw [hs.current_eq, hs'.current_eq, Parser.note, Parser.note, Array.toList_push,
    Array.toList_push]
  exact List.rel_append h.errors
    (.cons (matches_headD h.length_eq hs.suffix hs'.suffix heq cause) .nil)

theorem note_peek (h : T.Alike T' p p') (cause : SyntaxError.Cause) :
    T.Alike T' (p.note cause p.peek) (p'.note cause p'.peek) := by
  obtain ⟨us, us', hs, hs', heq⟩ := h.shown
  refine ⟨h.length_eq, ⟨us, us', hs.note _ _, hs'.note _ _, heq⟩, ?_⟩
  rw [hs.peek_eq, hs'.peek_eq, Parser.note, Parser.note, Array.toList_push, Array.toList_push]
  exact List.rel_append h.errors (.cons (matches_headD h.length_eq
    ((List.tail_suffix us).trans hs.suffix) ((List.tail_suffix us').trans hs'.suffix)
    (by rw [List.map_tail, List.map_tail, heq]) cause) .nil)

theorem toSemicolon (h : T.Alike T' p p') : T.Alike T' p.toSemicolon p'.toSemicolon := by
  unfold Parser.toSemicolon
  rw [h.peek_kind]
  split
  · exact h.advance
  · exact h

/-- The parsers skip the same tokens. -/
theorem synchronize (h : T.Alike T' p p') : T.Alike T' p.synchronize p'.synchronize := by
  induction p using Parser.synchronize.induct generalizing p' with
  | case1 p hstop =>
    rw [Parser.synchronize_of_stop hstop, Parser.synchronize_of_stop (h.current_kind ▸ hstop)]
    exact h
  | case2 p hgo ih =>
    have hgo' : ¬(p'.current.kind = .semicolon ∨ p'.current.kind = .endOfInput) :=
      h.current_kind ▸ hgo
    rw [Parser.synchronize_of_go hgo, Parser.synchronize_of_go hgo']
    exact ih h.advance

end Alike

/-! ## Actions in lockstep -/

/-- On alike parsers the action comes to the same and leaves alike parsers behind. -/
def Lockstep (T T' : Tape) (a : Parser.Action α) : Prop :=
  ∀ p p', T.Alike T' p p' → (a p).1 = (a p').1 ∧ T.Alike T' (a p).2 (a p').2

section
variable {a b : Parser.Action α} {f : α → Parser.Action β}

theorem Lockstep.bind (ha : T.Lockstep T' a) (hf : ∀ v, T.Lockstep T' (f v)) :
    T.Lockstep T' (a >>= f) := by
  intro p p' h
  obtain ⟨hvalue, halike⟩ := ha p p' h
  simp only [Bind.bind, Parser.Action.andThen]
  generalize a p = x, a p' = x' at hvalue halike ⊢
  obtain ⟨value, q⟩ := x
  obtain ⟨_, q'⟩ := x'
  cases hvalue
  cases value with
  | none => exact ⟨rfl, halike⟩
  | some v => exact hf v q q' halike

theorem lockstep_pure (value : α) : T.Lockstep T' (pure value : Parser.Action α) :=
  fun _ _ h => ⟨rfl, h⟩

theorem lockstep_exhausted : T.Lockstep T' (Parser.exhausted : Parser.Action α) :=
  fun _ _ h => ⟨rfl, h.finish⟩

theorem lockstep_next : T.Lockstep T' Parser.next := fun _ _ h => ⟨rfl, h.advance⟩

theorem lockstep_literal : T.Lockstep T' Parser.literal :=
  fun _ _ h => ⟨congrArg some h.current_literal, h⟩

theorem lockstep_semicolon : T.Lockstep T' Parser.semicolon := fun _ _ h => ⟨rfl, h.toSemicolon⟩

theorem lockstep_expect (kind : Kind) : T.Lockstep T' (Parser.expect kind) := by
  intro p p' h
  unfold Parser.expect
  rw [h.peek_kind]
  split
  · exact ⟨rfl, h.advance⟩
  · exact ⟨rfl, h.note_peek _⟩

theorem lockstep_refuse : T.Lockstep T' (Parser.refuse : Parser.Action α) := by
  intro p p' h
  unfold Parser.refuse
  rw [h.current_kind]
  exact ⟨rfl, h.note_current _⟩

theorem lockstep_integer : T.Lockstep T' Parser.integer := by
  intro p p' h
  unfold Parser.integer
  rw [h.current_literal]
  split
  · exact ⟨rfl, h⟩
  · exact ⟨rfl, h.note_current _⟩

/-- What depends on the token behind the current one takes the same way. -/
theorem Lockstep.ifPeek {kind : Kind} (ha : T.Lockstep T' a) (hb : T.Lockstep T' b) :
    T.Lockstep T' fun p => if p.peek.kind = kind then a p else b p := by
  intro p p' h
  dsimp only
  rw [h.peek_kind]
  split
  · exact ha p p' h
  · exact hb p p' h

theorem Lockstep.behind (kind : Kind) (ha : T.Lockstep T' a) :
    T.Lockstep T' (Parser.behind kind a) :=
  .ifPeek (lockstep_next.bind fun _ => ha.bind fun _ => lockstep_pure _) fun _ _ h => ⟨rfl, h⟩

theorem Lockstep.attempt {a : Parser.Action Stmt} {resume : Parser → Parser}
    (ha : T.Lockstep T' a)
    (hresume : ∀ {p p'}, T.Alike T' p p' → T.Alike T' (resume p) (resume p')) :
    T.Lockstep T' (Parser.attempt resume a) := by
  intro p p' h
  obtain ⟨hvalue, halike⟩ := ha p p' h
  unfold Parser.attempt
  generalize a p = x, a p' = x' at hvalue halike ⊢
  obtain ⟨value, q⟩ := x
  obtain ⟨_, q'⟩ := x'
  cases hvalue
  cases value with
  | none => exact ⟨rfl, hresume halike⟩
  | some s => exact ⟨rfl, halike⟩

end

/-! ## The actions of the grammar -/

/-- With a bound of `n` on the depth of calls, every action runs in lockstep. -/
structure AllLockstep (T T' : Tape) (n : Nat) : Prop where
  expression : ∀ floor, T.Lockstep T' (Parser.expression n floor)
  operand : T.Lockstep T' (Parser.operand n)
  extend : ∀ floor left, T.Lockstep T' (Parser.extend n floor left)
  arguments : T.Lockstep T' (Parser.arguments n)
  moreArguments : T.Lockstep T' (Parser.moreArguments n)
  block : T.Lockstep T' (Parser.block n)
  statement : T.Lockstep T' (Parser.statement n)

variable {n : Nat}

theorem lockstep_moreParameters (n : Nat) : T.Lockstep T' (Parser.moreParameters n) := by
  induction n with
  | zero => exact lockstep_exhausted
  | succ n ih =>
    exact .ifPeek
      (lockstep_next.bind fun _ => (lockstep_expect .identifier).bind fun _ =>
        lockstep_literal.bind fun _ => ih.bind fun _ => lockstep_pure _)
      ((lockstep_expect .rightParen).bind fun _ => lockstep_pure _)

theorem lockstep_parameters (n : Nat) : T.Lockstep T' (Parser.parameters n) :=
  .ifPeek (lockstep_next.bind fun _ => lockstep_pure _)
    ((lockstep_expect .identifier).bind fun _ => lockstep_literal.bind fun _ =>
      (lockstep_moreParameters n).bind fun _ => lockstep_pure _)

theorem AllLockstep.unary (ih : T.AllLockstep T' n) (operator : UnaryOperator) :
    T.Lockstep T' (Parser.next >>= fun _ => Parser.expression n .unary >>= fun value =>
      pure (Expr.unary operator value)) :=
  lockstep_next.bind fun _ => (ih.expression .unary).bind fun _ => lockstep_pure _

theorem AllLockstep.group (ih : T.AllLockstep T' n) :
    T.Lockstep T' (Parser.next >>= fun _ => Parser.expression n .lowest >>= fun inner =>
      Parser.expect .rightParen >>= fun _ => pure inner) :=
  lockstep_next.bind fun _ => (ih.expression .lowest).bind fun _ =>
    (lockstep_expect .rightParen).bind fun _ => lockstep_pure _

/-- A block in braces. -/
theorem AllLockstep.braced (ih : T.AllLockstep T' n) {f : List Stmt → Parser.Action α}
    (hf : ∀ body, T.Lockstep T' (f body)) :
    T.Lockstep T' (Parser.expect .leftBrace >>= fun _ => Parser.next >>= fun _ =>
      Parser.block n >>= f) :=
  (lockstep_expect .leftBrace).bind fun _ => lockstep_next.bind fun _ => ih.block.bind hf

theorem AllLockstep.conditional (ih : T.AllLockstep T' n) :
    T.Lockstep T' (Parser.expect .leftParen >>= fun _ => Parser.next >>= fun _ =>
      Parser.expression n .lowest >>= fun condition => Parser.expect .rightParen >>= fun _ =>
      Parser.expect .leftBrace >>= fun _ => Parser.next >>= fun _ =>
      Parser.block n >>= fun consequence =>
      Parser.behind .elseWord (Parser.expect .leftBrace >>= fun _ => Parser.next >>= fun _ =>
        Parser.block n) >>= fun alternative =>
      pure (Expr.conditional condition consequence alternative)) :=
  (lockstep_expect .leftParen).bind fun _ => lockstep_next.bind fun _ =>
    (ih.expression .lowest).bind fun _ => (lockstep_expect .rightParen).bind fun _ =>
    ih.braced fun _ => (Lockstep.behind .elseWord ((lockstep_expect .leftBrace).bind fun _ =>
      lockstep_next.bind fun _ => ih.block)).bind fun _ => lockstep_pure _

theorem AllLockstep.function (ih : T.AllLockstep T' n) :
    T.Lockstep T' (Parser.expect .leftParen >>= fun _ => Parser.parameters n >>= fun names =>
      Parser.expect .leftBrace >>= fun _ => Parser.next >>= fun _ =>
      Parser.block n >>= fun body => pure (Expr.function names body)) :=
  (lockstep_expect .leftParen).bind fun _ => (lockstep_parameters n).bind fun _ =>
    ih.braced fun _ => lockstep_pure _

theorem AllLockstep.operand_succ (ih : T.AllLockstep T' n) :
    T.Lockstep T' (Parser.operand (n + 1)) := by
  intro p p' h
  unfold Parser.operand
  rw [h.current_kind, h.current_literal]
  cases p'.current.kind with
  | identifier => exact ⟨rfl, h⟩
  | integer => exact lockstep_integer p p' h
  | string => exact ⟨rfl, h⟩
  | trueWord => exact ⟨rfl, h⟩
  | falseWord => exact ⟨rfl, h⟩
  | bang => exact ih.unary .not p p' h
  | minus => exact ih.unary .negate p p' h
  | leftParen => exact ih.group p p' h
  | ifWord => exact ih.conditional p p' h
  | function => exact ih.function p p' h
  | _ => exact lockstep_refuse p p' h

theorem AllLockstep.extend_succ (ih : T.AllLockstep T' n) (floor : Precedence) (left : Expr) :
    T.Lockstep T' (Parser.extend (n + 1) floor left) := by
  have hbinary (operator : BinaryOperator) (strength : Precedence) :
      T.Lockstep T' (Parser.next >>= fun _ => Parser.next >>= fun _ =>
        Parser.expression n strength >>= fun right =>
        Parser.extend n floor (.binary operator left right)) :=
    lockstep_next.bind fun _ => lockstep_next.bind fun _ => (ih.expression strength).bind fun _ =>
      ih.extend floor _
  have hcall : T.Lockstep T' (Parser.next >>= fun _ => Parser.arguments n >>= fun values =>
      Parser.extend n floor (.call left values)) :=
    lockstep_next.bind fun _ => ih.arguments.bind fun _ => ih.extend floor _
  intro p p' h
  unfold Parser.extend
  rw [h.peek_kind]
  split
  · split
    · exact hbinary _ _ p p' h
    · split
      · exact hcall p p' h
      · exact ⟨rfl, h⟩
  · exact ⟨rfl, h⟩

theorem AllLockstep.arguments_succ (ih : T.AllLockstep T' n) :
    T.Lockstep T' (Parser.arguments (n + 1)) :=
  .ifPeek (lockstep_next.bind fun _ => lockstep_pure _)
    (lockstep_next.bind fun _ => (ih.expression .lowest).bind fun _ =>
      ih.moreArguments.bind fun _ => lockstep_pure _)

theorem AllLockstep.moreArguments_succ (ih : T.AllLockstep T' n) :
    T.Lockstep T' (Parser.moreArguments (n + 1)) :=
  .ifPeek (lockstep_next.bind fun _ => lockstep_next.bind fun _ =>
      (ih.expression .lowest).bind fun _ => ih.moreArguments.bind fun _ => lockstep_pure _)
    ((lockstep_expect .rightParen).bind fun _ => lockstep_pure _)

theorem AllLockstep.block_succ (ih : T.AllLockstep T' n) :
    T.Lockstep T' (Parser.block (n + 1)) := by
  have hround : T.Lockstep T' (Parser.statement n >>= fun first => Parser.next >>= fun _ =>
      Parser.block n >>= fun others => pure (first.toList ++ others)) :=
    ih.statement.bind fun _ => lockstep_next.bind fun _ => ih.block.bind fun _ => lockstep_pure _
  intro p p' h
  unfold Parser.block
  rw [h.current_kind]
  split
  · exact ⟨rfl, h⟩
  · split
    · exact ⟨rfl, h.note_current _⟩
    · exact hround p p' h

theorem AllLockstep.statement_succ (ih : T.AllLockstep T' n) :
    T.Lockstep T' (Parser.statement (n + 1)) := by
  have hvalue (f : Expr → Stmt) : T.Lockstep T' (Parser.expression n .lowest >>= fun value =>
      Parser.semicolon >>= fun _ => pure (f value)) :=
    (ih.expression .lowest).bind fun _ => lockstep_semicolon.bind fun _ => lockstep_pure _
  intro p p' h
  unfold Parser.statement
  rw [h.current_kind]
  cases p'.current.kind with
  | letWord =>
    have hlet := (lockstep_expect .identifier).bind fun _ => lockstep_literal.bind fun name =>
      (lockstep_expect .assign).bind fun _ => lockstep_next.bind fun _ => hvalue (.binding name)
    exact hlet.attempt Alike.synchronize p p' h
  | returnWord =>
    have hleave := lockstep_next.bind fun _ => hvalue .leave
    exact hleave.attempt id p p' h
  | _ => exact (hvalue .expression).attempt Alike.toSemicolon p p' h

theorem allLockstep (T T' : Tape) (n : Nat) : T.AllLockstep T' n := by
  induction n with
  | zero => exact ⟨fun _ => lockstep_exhausted, lockstep_exhausted, fun _ _ => lockstep_exhausted,
      lockstep_exhausted, lockstep_exhausted, lockstep_exhausted, lockstep_exhausted⟩
  | succ n ih => exact ⟨fun floor => ih.operand.bind fun left => ih.extend floor left,
      ih.operand_succ, ih.extend_succ, ih.arguments_succ, ih.moreArguments_succ, ih.block_succ,
      ih.statement_succ⟩

/-- So do the statements up to the end of the source. -/
theorem lockstep_statements (T T' : Tape) (n : Nat) : T.Lockstep T' (Parser.statements n) := by
  induction n with
  | zero => exact lockstep_exhausted
  | succ n ih =>
    have hround : T.Lockstep T' (Parser.statement n >>= fun first => Parser.next >>= fun _ =>
        Parser.statements n >>= fun others => pure (first.toList ++ others)) :=
      (allLockstep T T' n).statement.bind fun _ => lockstep_next.bind fun _ =>
        ih.bind fun _ => lockstep_pure _
    intro p p' h
    unfold Parser.statements
    rw [h.current_kind]
    split
    · exact ⟨rfl, h⟩
    · exact hround p p' h

end Tape

/-! ## Sources -/

/-- Sources with the same terminals are parsed in lockstep: the programs are the same, and the
errors match one by one. -/
theorem parse_lockstep {s t : String}
    (h : (Token.scan s).map Token.toTerminal = (Token.scan t).map Token.toTerminal) :
    (parse s).program = (parse t).program ∧
      List.Forall₂ ((Tape.ofReader (.ofSource s)).Matches (.ofReader (.ofSource t)))
        (parse s).errors (parse t).errors := by
  -- The sources may differ in length, so the parsers are run with a bound that suffices for both.
  obtain ⟨ss, p, hp, hprogram, herrors⟩ := Parser.exists_statements_eq_parse (.ofSource s)
    (Nat.le_max_left _ (Parser.ofReader (.ofSource t)).depth)
  obtain ⟨ss', q, hq, hprogram', herrors'⟩ := Parser.exists_statements_eq_parse (.ofSource t)
    (Nat.le_max_right (Parser.ofReader (.ofSource s)).depth _)
  have hstart : (Tape.ofReader (.ofSource s)).Alike (.ofReader (.ofSource t))
      (.ofReader (.ofSource s)) (.ofReader (.ofSource t)) := Tape.alike_ofReader h
  obtain ⟨hvalue, halike⟩ := Tape.lockstep_statements _ _ _ _ _ hstart
  rw [hp, hq] at hvalue halike
  unfold parse
  rw [hprogram, hprogram', herrors, herrors', Option.some.inj hvalue]
  exact ⟨rfl, halike.errors⟩

end MonkeyLang
