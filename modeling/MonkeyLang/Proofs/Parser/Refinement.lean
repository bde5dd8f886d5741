import MonkeyLang.Proofs.Parser.Window
import MonkeyLang.Proofs.Production.Depth

/-!
# A parser reads what the grammar does

A production reads from a list of terminals that is there as a whole; an action of a parser sees two
tokens and asks for the next one. Yet they do the same: from a parser that shows the tokens whose
terminals the production is given, the action comes to the same value or to none, notes the errors
that the mistakes of the production are, and leaves the parser on the last token read, with those
terminals behind it that the production leaves (`Tape.Comes`). It never goes back.

An action begins with the current token or behind it, and where it is resumed after a failure may
depend on whether the current token is a semicolon, so `Tape.Follows` says which tokens it reads and
what is known of the current one before and after. From a parser that is on a semicolon, an action
that begins behind the current token may fail there and yet not for the semicolon: `o` stands for
that. `Follows` passes through sequences, and so the two families follow one another call by call,
with the same bound. With bounds that suffice, parsing from a reader is reading the tokens that
remain there (`Reader.parse_eq_ofTokens`).
-/

namespace MonkeyLang

open Production (Reply ahead)

namespace Tape

variable {T : Tape} {α β : Type} {p : Parser} {us vs : List Token} {noted : Array SyntaxError}
  {o : Prop}

/-! ## What an action comes to -/

/-- The errors that mistakes are. -/
def errors (T : Tape) (ms : List Mistake) : List SyntaxError :=
  ms.map (·.locate T.tokens.toArray T.bytes)

/-- The parser is on the last token that was read, which is not in front of `us`, and these
terminals are left behind it. -/
def Leaves (T : Tape) (us : List Token) (p : Parser) (rest : List Terminal) : Prop :=
  ∃ vs, T.Shows p vs ∧ vs <:+ us ∧ vs.tail.map Token.toTerminal = rest

/-- The current token is no semicolon, unless `o` holds. -/
def Inside (o : Prop) (p : Parser) : Prop := p.current.kind = .semicolon → o

/-- From a parser in front of the tokens `us`, with these errors noted, the action has come to what
the production has: to the same value, with `post` for the parser then, or to a failure, on a
semicolon if and, unless `o` holds, only if the production says so. -/
inductive Comes (T : Tape) (o : Prop) (us : List Token) (noted : Array SyntaxError)
    (post : Parser → Prop) : Option α × Parser → Reply α → Prop
  | found {p ms value rest} : p.errors.toList = noted.toList ++ T.errors ms →
      T.Leaves us p rest → post p → Comes T o us noted post (some value, p) ⟨ms, .found value rest⟩
  | failed {p ms rest closed} : p.errors.toList = noted.toList ++ T.errors ms →
      T.Leaves us p rest → (closed = true → p.current.kind = .semicolon) →
      Inside (closed = true ∨ o) p → Comes T o us noted post (none, p) ⟨ms, .failed rest closed⟩

/-- The action does what the production does on the tokens that are viewed, from every parser with
`pre` for it. -/
def Follows (T : Tape) (o : Prop) (view : List Token → List Token) (pre post : Parser → Prop)
    (a : Parser.Action α) (q : Production α) : Prop :=
  ∀ p us, T.Shows p us → pre p →
    T.Comes o us p.errors post (a p) (q ((view us).map Token.toTerminal))

/-- Nothing is known of the parser. -/
def Anywhere (_ : Parser) : Prop := True

theorem anywhere (p : Parser) : Anywhere p := trivial

variable {view : List Token → List Token} {pre mid post : Parser → Prop} {a : Parser.Action α}
  {q : Production α}

theorem errors_append (ms ns : List Mistake) : T.errors (ms ++ ns) = T.errors ms ++ T.errors ns :=
  List.map_append

/-- What is noted about the first of the tokens that are left. -/
theorem errors_note (p : Parser) (h : us <:+ T.tokens) (cause : SyntaxError.Cause) :
    (p.note cause (us.headD T.mark)).errors.toList =
      p.errors.toList ++ T.errors [⟨cause, us.length⟩] := by
  have hspan : spanOfLeft T.tokens.toArray T.bytes us.length = (us.headD T.mark).span := by
    obtain ⟨front, heq⟩ := h
    rw [← heq]
    exact spanOfLeft_append front us T.bytes
  rw [Parser.note, Array.toList_push, errors, List.map_singleton, Mistake.locate, hspan]

theorem Leaves.trans {rest : List Terminal} (h : T.Leaves vs p rest) (hvs : vs <:+ us) :
    T.Leaves us p rest := by
  obtain ⟨ws, hws, hsuffix, hrest⟩ := h
  exact ⟨ws, hws, hsuffix.trans hvs, hrest⟩

theorem Comes.after {ms : List Mistake} {x : Option α × Parser} {r : Reply α}
    (herrors : p.errors.toList = noted.toList ++ T.errors ms) (hvs : vs <:+ us)
    (h : T.Comes o vs p.errors post x r) :
    T.Comes o us noted post x ⟨ms ++ r.mistakes, r.result⟩ := by
  cases h with
  | found h hleaves hpost =>
    refine .found ?_ (hleaves.trans hvs) hpost
    rw [h, herrors, errors_append, List.append_assoc]
  | failed h hleaves hclosed hinside =>
    refine .failed ?_ (hleaves.trans hvs) hclosed hinside
    rw [h, herrors, errors_append, List.append_assoc]

theorem Comes.of_suffix {x : Option α × Parser} {r : Reply α} (h : T.Comes o vs noted post x r)
    (hvs : vs <:+ us) : T.Comes o us noted post x r := by
  cases h with
  | found h hleaves hpost => exact .found h (hleaves.trans hvs) hpost
  | failed h hleaves hclosed hinside => exact .failed h (hleaves.trans hvs) hclosed hinside

/-- What has come to be without a mistake comes to be from where it began. -/
theorem Comes.of_found {value : α} {rest : List Terminal} (herrors : p.errors = noted)
    (hleaves : T.Leaves us p rest) (hpost : post p) :
    T.Comes o us noted post (some value, p) ⟨[], .found value rest⟩ := by
  refine .found ?_ hleaves hpost
  rw [herrors, errors, List.map_nil, List.append_nil]

/-! ## Sequences -/

theorem Follows.bind {f : α → Parser.Action β} {g : α → Production β}
    (ha : T.Follows o view pre mid a q) (hf : ∀ v, T.Follows o List.tail mid post (f v) (g v)) :
    T.Follows o view pre post (a >>= f) (q >>= g) := by
  intro p us hs hpre
  have hcomes := ha p us hs hpre
  simp only [Bind.bind, Parser.Action.andThen, Production.andThen]
  generalize a p = x, q ((view us).map Token.toTerminal) = r at hcomes ⊢
  cases hcomes with
  | found herrors hleaves hmid =>
    obtain ⟨vs, hvs, hsuffix, rfl⟩ := hleaves
    exact .after herrors hsuffix (hf _ _ vs hvs hmid)
  | failed herrors hleaves hclosed hinside => exact .failed herrors hleaves hclosed hinside

theorem follows_pure (value : α) : T.Follows o List.tail pre pre (pure value) (pure value) :=
  fun _ us hs hpre => .of_found rfl ⟨us, hs, List.suffix_rfl, rfl⟩ hpre

theorem Follows.map {q : Production β} {a : Parser.Action β} (f : β → α)
    (h : T.Follows o view pre post a q) :
    T.Follows o view pre post (a >>= fun v => pure (f v)) (f <$> q) := by
  rw [map_eq_pure_bind]
  exact h.bind fun v => follows_pure (f v)

/-- What begins with the current token begins behind it after a move. -/
theorem Follows.next (h : T.Follows o id Anywhere post a q) :
    T.Follows o List.tail pre post (Parser.next >>= fun _ => a) q :=
  fun p us hs _ => (h p.advance us.tail hs.advance trivial).of_suffix (List.tail_suffix us)

theorem follows_exhausted :
    T.Follows o view pre post (Parser.exhausted : Parser.Action α) Production.exhausted := by
  intro p us hs _
  refine .failed ?_ ⟨[], hs.finish, List.nil_suffix, rfl⟩ nofun ?_
  · rw [errors, List.map_nil, List.append_nil]
    rfl
  · rw [Inside, hs.finish.current_nil]
    nofun

/-! ## Single tokens -/

theorem current_kind_eq_ahead (hs : T.Shows p us) :
    p.current.kind = ahead (us.map Token.toTerminal) := by
  rw [hs.current_eq]
  cases us <;> rfl

theorem peek_kind_eq_ahead (hs : T.Shows p us) :
    p.peek.kind = ahead (us.tail.map Token.toTerminal) := by
  rw [hs.peek_eq]
  rcases us with _ | ⟨t, _ | ⟨u, us⟩⟩ <;> rfl

theorem follows_refuse :
    T.Follows o id Anywhere post (Parser.refuse : Parser.Action α) Production.refuse := by
  intro p us hs _
  have herrors := fun cause => errors_note p hs.suffix cause
  have hcurrent := hs.current_eq
  unfold Parser.refuse
  rw [hcurrent]
  cases us with
  | nil =>
    refine .failed (herrors _) ⟨[], hs.note _ _, List.suffix_rfl, rfl⟩ nofun fun h => ?_
    have hmark : p.current.kind = .endOfInput := congrArg (fun t => t.kind) hcurrent
    cases hmark.symm.trans h
  | cons t us =>
    rw [id, List.map_cons, Production.refuse, List.length_map]
    have hkind : (p.note (.noExpression t.kind) t).current.kind = t.kind := by
      show p.current.kind = _
      rw [hs.current_cons]
    refine .failed (herrors _) ⟨t :: us, hs.note _ _, List.suffix_rfl, rfl⟩ (fun h => ?_)
      fun h => ?_
    · exact hkind.trans (beq_iff_eq.1 h)
    · exact .inl (beq_iff_eq.2 (hkind.symm.trans h))

theorem comes_integer {t : Token} (hs : T.Shows p (t :: us)) (hkind : t.kind = .integer) :
    T.Comes o (t :: us) p.errors (Inside o) (Parser.integer p)
      (Production.integer ((t :: us).map Token.toTerminal)) := by
  have hinside {o : Prop} : Inside o p := by
    rw [Inside, hs.current_cons, hkind]
    nofun
  unfold Parser.integer
  rw [hs.current_cons, List.map_cons, Production.integer, List.length_map]
  cases Decimal.int64? t.literal.toList with
  | some value => exact .of_found rfl ⟨t :: us, hs, List.suffix_rfl, rfl⟩ hinside
  | none =>
    exact .failed (errors_note p hs.suffix _) ⟨t :: us, hs.note _ _, List.suffix_rfl, rfl⟩ nofun
      hinside

/-- A token that is due is the one peeked at, or it is not there. -/
theorem comes_expect {kind : Kind} (hkind : kind ≠ .endOfInput) {f : Parser.Action β}
    {g : String → Production β} (hs : T.Shows p us) (hp : Inside o p)
    (h : ∀ t vs, us.tail = t :: vs → t.kind = kind →
      T.Comes o us.tail p.errors post (f p.advance) (g t.literal (vs.map Token.toTerminal))) :
    T.Comes o us p.errors post ((Parser.expect kind >>= fun _ => f) p)
      ((Production.expect kind >>= g) (us.tail.map Token.toTerminal)) := by
  have hsuffix := (List.tail_suffix us).trans hs.suffix
  have herrors := fun cause => errors_note p hsuffix cause
  rw [← hs.peek_eq] at herrors
  by_cases hpeek : p.peek.kind = kind
  · obtain ⟨t, vs, htail⟩ : ∃ t vs, us.tail = t :: vs := by
      cases htail : us.tail with
      | nil =>
        rw [hs.peek_eq, htail] at hpeek
        exact absurd hpeek.symm hkind
      | cons t vs => exact ⟨t, vs, rfl⟩
    have ht : t.kind = kind := by
      rw [← hpeek, hs.peek_eq, htail]
      rfl
    have hexpect : Production.expect kind (us.tail.map Token.toTerminal) =
        ⟨[], .found t.literal (vs.map Token.toTerminal)⟩ := by
      rw [htail, List.map_cons, Production.expect, if_pos ht]
    have hrun : (Parser.expect kind >>= fun _ => f) p = f p.advance := by
      simp only [Bind.bind, Parser.Action.andThen, Parser.expect, if_pos hpeek]
    rw [Production.bind_of_found hexpect, hrun]
    exact (h t vs htail ht).of_suffix (List.tail_suffix us)
  · have hrun : (Parser.expect kind >>= fun _ => f) p =
        (none, p.note (.unexpected kind p.peek.kind) p.peek) := by
      simp only [Bind.bind, Parser.Action.andThen, Parser.expect, if_neg hpeek]
    have hexpect : Production.expect kind (us.tail.map Token.toTerminal) =
        ⟨[⟨.unexpected kind p.peek.kind, us.tail.length⟩],
          .failed (us.tail.map Token.toTerminal) false⟩ := by
      rw [hs.peek_eq] at hpeek ⊢
      cases htail : us.tail with
      | nil => rfl
      | cons t vs =>
        rw [htail] at hpeek
        rw [List.map_cons, Production.expect, if_neg (show ¬ t.toTerminal.kind = kind from hpeek),
          List.length_map]
        rfl
    rw [hrun, Production.bind_of_failed hexpect]
    exact .failed (herrors _) ⟨us, hs.note _ _, List.suffix_rfl, rfl⟩
      (absurd · Bool.false_ne_true) fun h => .inr (hp h)

/-- A sign or a keyword that is due. -/
theorem Follows.expect (kind : Kind) (h : T.Follows o List.tail (Inside o) post a q)
    (hend : kind ≠ .endOfInput := by decide) (hsemicolon : kind ≠ .semicolon := by decide) :
    T.Follows o List.tail (Inside o) post (Parser.expect kind >>= fun _ => a)
      (Production.expect kind >>= fun _ => q) := by
  intro p us hs hp
  refine comes_expect hend hs hp fun t vs htail ht => ?_
  have hadvance := hs.advance
  rw [htail] at hadvance ⊢
  refine h p.advance (t :: vs) hadvance fun hkind => ?_
  rw [hadvance.current_cons, ht] at hkind
  exact absurd hkind hsemicolon

/-- A name that is due. -/
theorem Follows.expect_name {f : String → Parser.Action β} {g : String → Production β}
    (h : ∀ name, T.Follows o List.tail (Inside o) post (f name) (g name)) :
    T.Follows o List.tail (Inside o) post
      (Parser.expect .identifier >>= fun _ => Parser.literal >>= f)
      (Production.expect .identifier >>= g) := by
  intro p us hs hp
  refine comes_expect (by decide) hs hp fun t vs htail ht => ?_
  have hadvance := hs.advance
  rw [htail] at hadvance ⊢
  have hrun : (Parser.literal >>= f) p.advance = f t.literal p.advance := by
    show f p.advance.current.literal p.advance = _
    rw [hadvance.current_cons]
  rw [hrun]
  refine h t.literal p.advance (t :: vs) hadvance fun hkind => ?_
  rw [hadvance.current_cons, ht] at hkind
  cases hkind

/-- A token that is there may be moved to as one that is due. -/
theorem next_eq_expect {kind : Kind} (h : p.peek.kind = kind) (f : Unit → Parser.Action β) :
    (Parser.next >>= f) p = (Parser.expect kind >>= f) p := by
  simp only [Bind.bind, Parser.Action.andThen, Parser.next, Parser.expect, if_pos h]

/-! ## Where statements end and resume -/

theorem leaves_toSemicolon (hs : T.Shows p us) :
    T.Leaves us p.toSemicolon (Production.withoutSemicolon (us.tail.map Token.toTerminal)) := by
  have hpeek := hs.peek_eq
  unfold Parser.toSemicolon
  cases htail : us.tail with
  | nil =>
    rw [htail] at hpeek
    rw [if_neg (by rw [hpeek]; nofun)]
    exact ⟨us, hs, List.suffix_rfl, by rw [htail]; rfl⟩
  | cons t vs =>
    have hkind : p.peek.kind = t.kind := by rw [hpeek, htail]; rfl
    rw [hkind, List.map_cons, Production.withoutSemicolon]
    split
    · exact ⟨us.tail, hs.advance, List.tail_suffix us, by rw [htail]; rfl⟩
    · exact ⟨us, hs, List.suffix_rfl, by rw [htail]; rfl⟩

theorem errors_toSemicolon (p : Parser) : p.toSemicolon.errors = p.errors := by
  unfold Parser.toSemicolon
  split <;> rfl

theorem follows_semicolon :
    T.Follows o List.tail pre Anywhere Parser.semicolon Production.semicolon :=
  fun p _ hs _ => .of_found (errors_toSemicolon p) (leaves_toSemicolon hs) trivial

theorem errors_synchronize (p : Parser) : p.synchronize.errors = p.errors := by
  induction p using Parser.synchronize.induct with
  | case1 p h => rw [Parser.synchronize_of_stop h]
  | case2 p h ih =>
    rw [Parser.synchronize_of_go h, ih]
    rfl

theorem leaves_synchronize (hs : T.Shows p us) :
    T.Leaves us p.synchronize (if p.current.kind = .semicolon then us.tail.map Token.toTerminal
      else Production.afterSemicolon (us.tail.map Token.toTerminal)) := by
  induction us generalizing p with
  | nil =>
    have hend : p.current.kind = .endOfInput := hs.current_kind_eq_endOfInput.2 rfl
    rw [Parser.synchronize_of_stop (.inr hend), if_neg (by rw [hend]; decide)]
    exact ⟨[], hs, List.suffix_rfl, rfl⟩
  | cons t us ih =>
    have hend : p.current.kind ≠ .endOfInput := fun h =>
      List.cons_ne_nil t us (hs.current_kind_eq_endOfInput.1 h)
    by_cases hsemicolon : p.current.kind = .semicolon
    · rw [Parser.synchronize_of_stop (.inl hsemicolon), if_pos hsemicolon]
      exact ⟨t :: us, hs, List.suffix_rfl, rfl⟩
    · rw [Parser.synchronize_of_go (not_or.2 ⟨hsemicolon, hend⟩), if_neg hsemicolon]
      have hleaves := (ih hs.advance).trans (List.suffix_cons t us)
      rw [current_kind_eq_ahead hs.advance] at hleaves
      cases us with
      | nil => exact hleaves
      | cons u us => exact hleaves

/-- After a failure the parser resumes where the production does. -/
def Resumes (T : Tape) (resume : Parser → Parser)
    (resume' : List Terminal → Bool → List Terminal) : Prop :=
  ∀ p us closed, T.Shows p us → (closed = true ↔ p.current.kind = .semicolon) →
    (resume p).errors = p.errors ∧
      T.Leaves us (resume p) (resume' (us.tail.map Token.toTerminal) closed)

theorem resumes_id : T.Resumes id fun rest _ => rest :=
  fun _ us _ hs _ => ⟨rfl, us, hs, List.suffix_rfl, rfl⟩

theorem resumes_toSemicolon :
    T.Resumes Parser.toSemicolon fun rest _ => Production.withoutSemicolon rest :=
  fun p _ _ hs _ => ⟨errors_toSemicolon p, leaves_toSemicolon hs⟩

theorem resumes_synchronize : T.Resumes Parser.synchronize fun rest closed =>
    if closed then rest else Production.afterSemicolon rest := by
  intro p us closed hs hclosed
  have hleaves := leaves_synchronize hs
  rw [← ite_congr (propext hclosed) (fun _ => rfl) (fun _ => rfl)] at hleaves
  exact ⟨errors_synchronize p, hleaves⟩

theorem Follows.attempt {a : Parser.Action Stmt} {q : Production Stmt}
    {resume : Parser → Parser} {resume' : List Terminal → Bool → List Terminal}
    (h : T.Follows False view pre post a q) (hresume : T.Resumes resume resume') :
    T.Follows o view pre Anywhere (Parser.attempt resume a) (Production.attempt resume' q) := by
  intro p us hs hpre
  have hcomes := h p us hs hpre
  unfold Parser.attempt Production.attempt
  generalize a p = x, q ((view us).map Token.toTerminal) = r at hcomes ⊢
  cases hcomes with
  | found herrors hleaves _ => exact .found herrors hleaves trivial
  | @failed p' _ _ closed herrors hleaves hclosed hinside =>
    obtain ⟨vs, hvs, hsuffix, rfl⟩ := hleaves
    obtain ⟨heq, hleaves⟩ := hresume p' vs closed hvs
      ⟨hclosed, fun h => (hinside h).resolve_right id⟩
    exact .found (by rw [heq, herrors]) (hleaves.trans hsuffix) trivial

/-- What applies behind a token of the given kind applies there or not at all. -/
theorem Follows.behind (kind : Kind) (h : T.Follows o List.tail (Inside o) (Inside o) a q)
    (hend : kind ≠ .endOfInput := by decide) (hsemicolon : kind ≠ .semicolon := by decide) :
    T.Follows o List.tail (Inside o) (Inside o) (Parser.behind kind a)
      (Production.behind kind q) := by
  intro p us hs hp
  have hpeek := hs.peek_eq
  unfold Parser.behind
  cases htail : us.tail with
  | nil =>
    rw [htail] at hpeek
    rw [if_neg (by rw [hpeek]; exact hend.symm)]
    exact .of_found rfl ⟨us, hs, List.suffix_rfl, by rw [htail]; rfl⟩ hp
  | cons t vs =>
    have hkind : p.peek.kind = t.kind := by rw [hpeek, htail]; rfl
    rw [hkind, List.map_cons, Production.behind]
    split
    · next ht =>
      have hadvance := hs.advance
      have hsuffix := List.tail_suffix us
      rw [htail] at hadvance hsuffix
      refine ((h.map some) p.advance (t :: vs) hadvance fun hcurrent => ?_).of_suffix hsuffix
      rw [hadvance.current_cons] at hcurrent
      exact absurd (ht.symm.trans hcurrent) hsemicolon
    · exact .of_found rfl ⟨us, hs, List.suffix_rfl, by rw [htail]; rfl⟩ hp

/-- What depends on the token behind the current one. -/
theorem Follows.ifPeek {kind : Kind} {b : Parser.Action α} {q' : Production α}
    (ha : T.Follows o List.tail (Inside o) post (Parser.expect kind >>= fun _ => a) q)
    (hb : T.Follows o List.tail (Inside o) post b q') :
    T.Follows o List.tail (Inside o) post
      (fun p => if p.peek.kind = kind then (Parser.next >>= fun _ => a) p else b p)
      (fun ts => if ahead ts = kind then q ts else q' ts) := by
  intro p us hs hp
  have hpeek := peek_kind_eq_ahead hs
  dsimp only
  by_cases h : p.peek.kind = kind
  · rw [if_pos h, if_pos (hpeek ▸ h), next_eq_expect h]
    exact ha p us hs hp
  · rw [if_neg h, if_neg (hpeek ▸ h)]
    exact hb p us hs hp

/-! ## The productions -/

/-- With a bound of `n` on the depth of calls, every action follows its production. -/
structure AllFollow (T : Tape) (n : Nat) : Prop where
  expression : ∀ {o} floor, T.Follows o id Anywhere (Inside o) (Parser.expression n floor)
    (Production.expression n floor)
  operand : ∀ {o}, T.Follows o id Anywhere (Inside o) (Parser.operand n) (Production.operand n)
  extend : ∀ {o} floor left, T.Follows o List.tail (Inside o) (Inside o)
    (Parser.extend n floor left) (Production.extend n floor left)
  arguments : ∀ {o}, T.Follows o List.tail (Inside o) (Inside o) (Parser.arguments n)
    (Production.arguments n)
  moreArguments : ∀ {o}, T.Follows o List.tail (Inside o) (Inside o) (Parser.moreArguments n)
    (Production.moreArguments n)
  block : ∀ {o}, T.Follows o id Anywhere (Inside o) (Parser.block n) (Production.block n)
  statement : ∀ {o}, T.Follows o id Anywhere Anywhere (Parser.statement n)
    (Production.statement n)

variable {n : Nat}

theorem follows_moreParameters (n : Nat) : T.Follows o List.tail (Inside o) (Inside o)
    (Parser.moreParameters n) (Production.moreParameters n) := by
  induction n with
  | zero => exact follows_exhausted
  | succ n ih =>
    exact .ifPeek (.expect .comma (.expect_name fun _ => ih.bind fun _ => follows_pure _))
      (.expect .rightParen (follows_pure _))

theorem follows_parameters (n : Nat) : T.Follows o List.tail (Inside o) (Inside o)
    (Parser.parameters n) (Production.parameters n) :=
  .ifPeek (.expect .rightParen (follows_pure _))
    (.expect_name fun _ => (follows_moreParameters n).bind fun _ => follows_pure _)

theorem AllFollow.operand_succ (ih : T.AllFollow n) :
    T.Follows o id Anywhere (Inside o) (Parser.operand (n + 1)) (Production.operand (n + 1)) := by
  intro p us hs _
  cases us with
  | nil =>
    have hrun : Parser.operand (n + 1) p = Parser.refuse p := by
      simp only [Parser.operand, hs.current_nil, mark, Token.endOfInput]
    rw [hrun]
    exact follows_refuse p [] hs (anywhere p)
  | cons t us =>
    have hkind : p.current.kind = t.kind := by rw [hs.current_cons]
    have hinside (h : t.kind ≠ .semicolon) : Inside o p := fun hp => absurd (hkind ▸ hp) h
    have hleaf {e : Expr} (h : t.kind ≠ .semicolon) :
        T.Comes o (t :: us) p.errors (Inside o) (some e, p)
          ⟨[], .found e (us.map Token.toTerminal)⟩ :=
      .of_found rfl ⟨t :: us, hs, List.suffix_rfl, rfl⟩ (hinside h)
    simp only [Parser.operand, Production.operand, id, List.map_cons, hkind]
    cases ht : t.kind with
    | identifier =>
      rw [hs.current_cons]
      exact hleaf (by rw [ht]; decide)
    | integer => exact comes_integer hs ht
    | string =>
      rw [hs.current_cons]
      exact hleaf (by rw [ht]; decide)
    | trueWord => exact hleaf (by rw [ht]; decide)
    | falseWord => exact hleaf (by rw [ht]; decide)
    | bang => exact ((ih.expression .unary).map _).next p (t :: us) hs (anywhere p)
    | minus => exact ((ih.expression .unary).map _).next p (t :: us) hs (anywhere p)
    | leftParen =>
      have hgroup := (ih.expression (o := o) .lowest).bind fun inner =>
        .expect .rightParen (follows_pure inner)
      exact hgroup.next p (t :: us) hs (anywhere p)
    | ifWord =>
      have hblock : T.Follows o List.tail (Inside o) (Inside o)
          (Parser.next >>= fun _ => Parser.block n) (Production.block n) := .next ih.block
      have hconditional := Follows.expect .leftParen (.next ((ih.expression (o := o) .lowest).bind
        fun condition => .expect .rightParen (.expect .leftBrace (.next (ih.block.bind
          fun consequence => (Follows.behind .elseWord (hblock.expect .leftBrace)).bind
            fun alternative =>
              follows_pure (Expr.conditional condition consequence alternative))))))
      exact hconditional p (t :: us) hs (hinside (by rw [ht]; decide))
    | function =>
      have hfunction := Follows.expect .leftParen ((follows_parameters (o := o) n).bind
        fun names => .expect .leftBrace (.next (ih.block.bind fun body =>
          follows_pure (Expr.function names body))))
      exact hfunction p (t :: us) hs (hinside (by rw [ht]; decide))
    | _ => exact follows_refuse p (t :: us) hs (anywhere p)

theorem AllFollow.extend_succ (ih : T.AllFollow n) (floor : Precedence) (left : Expr) :
    T.Follows o List.tail (Inside o) (Inside o) (Parser.extend (n + 1) floor left)
      (Production.extend (n + 1) floor left) := by
  intro p us hs hp
  have hstay : T.Comes o us p.errors (Inside o) (some left, p)
      ⟨[], .found left (us.tail.map Token.toTerminal)⟩ :=
    .of_found rfl ⟨us, hs, List.suffix_rfl, rfl⟩ hp
  have hpeek := peek_kind_eq_ahead hs
  have hadvance := hs.advance
  have hsuffix := List.tail_suffix us
  unfold Parser.extend Production.extend
  cases htail : us.tail with
  | nil =>
    rw [htail] at hpeek hstay
    rw [hpeek, if_neg (fun h => absurd h.2 (by cases floor <;> decide))]
    exact hstay
  | cons t vs =>
    rw [htail] at hpeek hstay hadvance hsuffix
    have hkind : p.peek.kind = t.kind := hpeek
    simp only [List.map_cons, hkind]
    by_cases hlt : floor < t.kind.precedence
    · rw [if_pos ⟨Kind.ne_semicolon_of_lt hlt, hlt⟩, if_pos hlt]
      cases ho : BinaryOperator.ofKind? t.kind with
      | some operator =>
        have hbinary := (ih.expression (o := o) operator.precedence).bind fun right =>
          ih.extend floor (.binary operator left right)
        rw [Kind.precedence_of_operator ho]
        exact (hbinary.next p.advance (t :: vs) hadvance (anywhere p.advance)).of_suffix hsuffix
      | none =>
        have hcall := ih.arguments (o := o).bind fun values => ih.extend floor (.call left values)
        dsimp only
        rw [if_pos (Kind.eq_leftParen_of_lt ho hlt)]
        refine (hcall p.advance (t :: vs) hadvance fun hcurrent => ?_).of_suffix hsuffix
        rw [hadvance.current_cons] at hcurrent
        exact absurd hcurrent (Kind.ne_semicolon_of_lt hlt)
    · rw [if_neg (fun h => hlt h.2), if_neg hlt]
      exact hstay

theorem AllFollow.block_succ (ih : T.AllFollow n) :
    T.Follows o id Anywhere (Inside o) (Parser.block (n + 1)) (Production.block (n + 1)) := by
  intro p us hs _
  unfold Parser.block Production.block
  cases us with
  | nil =>
    have hend : p.current.kind = .endOfInput := hs.current_kind_eq_endOfInput.2 rfl
    have herrors := errors_note p hs.suffix (.unexpected .rightBrace .endOfInput)
    rw [← hs.current_eq] at herrors
    rw [if_neg (by rw [hend]; decide), if_pos hend]
    refine .found herrors ⟨[], hs.note _ _, List.suffix_rfl, rfl⟩ fun hcurrent => ?_
    cases hend.symm.trans hcurrent
  | cons t us =>
    have hkind : p.current.kind = t.kind := by rw [hs.current_cons]
    simp only [id, List.map_cons, hkind, if_neg (hs.kind_ne List.mem_cons_self)]
    split
    · next hbrace =>
      refine .of_found rfl ⟨t :: us, hs, List.suffix_rfl, rfl⟩ fun hcurrent => ?_
      cases (hkind.trans hbrace).symm.trans hcurrent
    · have hstatements := ih.statement (o := o).bind fun first =>
        .next (ih.block.bind fun others => follows_pure (first.toList ++ others))
      exact hstatements p (t :: us) hs (anywhere p)

theorem AllFollow.statement_succ (ih : T.AllFollow n) :
    T.Follows o id Anywhere Anywhere (Parser.statement (n + 1)) (Production.statement (n + 1)) := by
  have hvalue (f : Expr → Stmt) : T.Follows False id Anywhere Anywhere
      (Parser.expression n .lowest >>= fun value => Parser.semicolon >>= fun _ => pure (f value))
      (Production.expression n .lowest >>= fun value =>
        Production.semicolon >>= fun _ => pure (f value)) :=
    (ih.expression .lowest).bind fun value => follows_semicolon.bind fun _ => follows_pure _
  intro p us hs _
  have hahead := current_kind_eq_ahead hs
  unfold Parser.statement Production.statement
  simp only [id, ← hahead]
  cases hkind : p.current.kind with
  | letWord =>
    have hlet := (Follows.expect_name fun name =>
      .expect .assign (.next (hvalue (.binding name)))).attempt (o := o) resumes_synchronize
    obtain ⟨l, rest, hts⟩ := Production.exists_cons_of_ahead (hahead.symm.trans hkind)
    have hrun := hlet p us hs fun h => absurd (hkind.symm.trans h) (by decide)
    rw [hts, Production.attempt_congr_at _ (Production.expect_bind _ _ _ _)]
    rw [List.map_tail, hts] at hrun
    exact hrun
  | returnWord =>
    have hrun := (hvalue .leave).next.attempt (o := o) resumes_id p us hs (anywhere p)
    obtain ⟨l, rest, hts⟩ := Production.exists_cons_of_ahead (hahead.symm.trans hkind)
    rw [hts, Production.attempt_congr_at _ (Production.expect_bind _ _ _ _)]
    rw [List.map_tail, hts] at hrun
    exact hrun
  | _ => exact (hvalue .expression).attempt resumes_toSemicolon p us hs (anywhere p)

theorem allFollow (T : Tape) (n : Nat) : T.AllFollow n := by
  induction n with
  | zero =>
    exact ⟨fun _ => follows_exhausted, follows_exhausted, fun _ _ => follows_exhausted,
      follows_exhausted, follows_exhausted, follows_exhausted, follows_exhausted⟩
  | succ n ih =>
    refine ⟨fun floor => ih.operand.bind fun left => ih.extend floor left, ih.operand_succ,
      ih.extend_succ, ?_, ?_, ih.block_succ, ih.statement_succ⟩
    · exact .ifPeek (.expect .rightParen (follows_pure _)) (.next ((ih.expression .lowest).bind
        fun _ => ih.moreArguments.bind fun _ => follows_pure _))
    · exact .ifPeek (.expect .comma (.next ((ih.expression .lowest).bind
        fun _ => ih.moreArguments.bind fun _ => follows_pure _)))
        (.expect .rightParen (follows_pure _))

/-- The current token is the mark of the end. -/
def Ended (p : Parser) : Prop := p.current.kind = .endOfInput

/-- Statements are read up to the end of the source. -/
theorem follows_statements (T : Tape) (n : Nat) :
    T.Follows o id Anywhere Ended (Parser.statements n) (Production.statements n) := by
  induction n with
  | zero => exact follows_exhausted
  | succ n ih =>
    intro p us hs _
    unfold Parser.statements Production.statements
    cases us with
    | nil =>
      have hend : p.current.kind = .endOfInput := hs.current_kind_eq_endOfInput.2 rfl
      rw [if_pos hend]
      exact .of_found rfl ⟨[], hs, List.suffix_rfl, rfl⟩ hend
    | cons t us =>
      have hne : p.current.kind ≠ .endOfInput := by
        rw [hs.current_cons]
        exact hs.kind_ne List.mem_cons_self
      rw [if_neg hne]
      have hstatements := (allFollow T n).statement.bind fun first => .next (ih.bind fun others =>
        follows_pure (first.toList ++ others))
      exact hstatements p (t :: us) hs (anywhere p)

/-- With a bound that suffices, all statements are read that the productions find. -/
theorem Shows.exists_statements {n : Nat} (hs : T.Shows p us) (hn : 4 * us.length + 4 ≤ n) :
    ∃ q, Parser.statements n p =
        (some (Program.ofTerminals (us.map Token.toTerminal)).program.statements, q) ∧
      q.errors.toList = p.errors.toList ++
        T.errors (Program.ofTerminals (us.map Token.toTerminal)).mistakes ∧
      T.Shows q [] := by
  obtain ⟨ms, ss, hfound⟩ := Production.Unbounded.statements_found (us.map Token.toTerminal)
  have hcomes := follows_statements (o := False) T n p us hs (anywhere p)
  rw [id, Production.Unbounded.statements_settles (by rwa [List.length_map]), hfound] at hcomes
  rw [Production.ofTerminals_eq, hfound]
  generalize Parser.statements n p = x at hcomes ⊢
  cases hcomes with
  | @found q _ _ _ herrors hleaves hended =>
    obtain ⟨vs, hvs, -, -⟩ := hleaves
    obtain rfl := hvs.current_kind_eq_endOfInput.1 hended
    exact ⟨q, rfl, herrors, hvs⟩

end Tape

/-! ## Programs -/

/-- The statements of a program, and the parser at its end, which has noted all errors. -/
theorem Parser.exists_statements (r : Reader) {n : Nat} (hn : (ofReader r).depth ≤ n) :
    ∃ q, statements n (ofReader r) =
        (some (Parsed.ofTokens r.remaining r.source.utf8ByteSize).program.statements, q) ∧
      q.errors.toList = (Parsed.ofTokens r.remaining r.source.utf8ByteSize).errors ∧
      (Tape.ofReader r).Shows q [] := by
  have hs := Tape.shows_ofReader r
  have hle := hs.length_le
  exact hs.exists_statements (by unfold depth at hn; omega)

/-- A program that is read token by token is the one that is read from the tokens that remain. -/
theorem Reader.parse_eq_ofTokens (r : Reader) :
    r.parse = .ofTokens r.remaining r.source.utf8ByteSize := by
  obtain ⟨q, hstatements, herrors, hq⟩ := Parser.exists_statements r (Nat.le_refl _)
  have hrest : (Parsed.ofTokens r.remaining r.source.utf8ByteSize).rest = [] := by
    obtain ⟨ms, ss, hfound⟩ :=
      Production.Unbounded.statements_found (r.remaining.map Token.toTerminal)
    rw [Parsed.ofTokens, Production.ofTerminals_eq, hfound]
  unfold Reader.parse Parser.program
  rw [hstatements]
  dsimp only
  rw [herrors, hq.unread_eq, List.map_nil, ← hrest]

/-- A bound larger than the one that suffices makes no difference. -/
theorem Parser.exists_statements_eq_parse (r : Reader) {n : Nat} (hn : (ofReader r).depth ≤ n) :
    ∃ ss q, statements n (ofReader r) = (some ss, q) ∧ r.parse.program = ⟨ss⟩ ∧
      r.parse.errors = q.errors.toList := by
  obtain ⟨q, hstatements, herrors, -⟩ := exists_statements r hn
  rw [r.parse_eq_ofTokens]
  exact ⟨_, q, hstatements, rfl, herrors.symm⟩

/-- Parsing a source is reading a program from its tokens. -/
theorem parse_eq (source : String) :
    parse source = .ofTokens (Token.scan source) source.utf8ByteSize :=
  Reader.parse_eq_ofTokens (.ofSource source)

end MonkeyLang
