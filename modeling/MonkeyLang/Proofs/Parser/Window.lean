import MonkeyLang.Proofs.Token.Scan
import MonkeyLang.Syntax.Parse

/-!
# What a parser sees

A `Tape` is what a reader hands out: tokens, and behind them the mark of the end, over and over. A
parser shows an end `us` of the tape (`Tape.Shows`) if its current token is the first of `us`, the
one it peeks at the second, and its reader has the rest. So it is from the start, and moving on goes
to the next token. What the parser has not moved past is `us` then (`Tape.Shows.unread_eq`).
-/

namespace MonkeyLang

/-- Tokens of a source of so many bytes, none of which is the mark of its end. -/
structure Tape where
  tokens : List Token
  bytes : Nat
  kind_ne : ∀ t ∈ tokens, t.kind ≠ .endOfInput

/-- What a reader has not handed out. -/
def Tape.ofReader (r : Reader) : Tape :=
  ⟨r.remaining, r.source.utf8ByteSize, fun _ => Token.kind_ne_endOfInput_of_mem⟩

namespace Tape

variable {T : Tape} {p : Parser} {us vs : List Token} {t : Token}

/-- The mark behind the last token. -/
def mark (T : Tape) : Token := .endOfInput T.bytes

/-- The parser is on the first of the tokens `us`, which are the last ones of the tape. -/
structure Shows (T : Tape) (p : Parser) (us : List Token) : Prop where
  suffix : us <:+ T.tokens
  bytes_eq : p.reader.source.utf8ByteSize = T.bytes
  current_eq : p.current = us.headD T.mark
  peek_eq : p.peek = us.tail.headD T.mark
  remaining_eq : p.reader.remaining = us.tail.tail

/-- A parser begins with the first token of its reader. -/
theorem shows_ofReader (r : Reader) : (ofReader r).Shows (.ofReader r) r.remaining := by
  have hsource := r.advance?_source
  have hremaining := r.advance?_remaining.2
  have hsource' := r.advance?.2.advance?_source
  have hremaining' := r.advance?.2.advance?_remaining.2
  refine ⟨List.suffix_rfl, ?_, ?_, ?_, ?_⟩
  · show r.next.2.next.2.source.utf8ByteSize = _
    rw [r.next_eq, Reader.next_eq, hsource', hsource]
    rfl
  · show r.next.1 = _
    rw [r.next_eq]
    rfl
  · show r.next.2.next.1 = _
    rw [r.next_eq, Reader.next_eq, hremaining, hsource]
    rfl
  · show r.next.2.next.2.remaining = _
    rw [r.next_eq, Reader.next_eq, hremaining', hremaining]

namespace Shows

theorem advance (h : T.Shows p us) : T.Shows p.advance us.tail := by
  have hsource := p.reader.advance?_source
  have hremaining := p.reader.advance?_remaining.2
  refine ⟨(List.tail_suffix us).trans h.suffix, ?_, h.peek_eq, ?_, ?_⟩
  · show p.reader.next.2.source.utf8ByteSize = _
    rw [p.reader.next_eq, hsource, h.bytes_eq]
  · show p.reader.next.1 = _
    rw [p.reader.next_eq, h.remaining_eq, h.bytes_eq]
    rfl
  · show p.reader.next.2.remaining = _
    rw [p.reader.next_eq, hremaining, h.remaining_eq]

theorem note (h : T.Shows p us) (cause : SyntaxError.Cause) (t : Token) :
    T.Shows (p.note cause t) us :=
  ⟨h.suffix, h.bytes_eq, h.current_eq, h.peek_eq, h.remaining_eq⟩

theorem finish (h : T.Shows p us) : T.Shows p.finish [] := by
  have hmark : Token.endOfInput p.reader.source.utf8ByteSize = T.mark := by rw [h.bytes_eq]; rfl
  exact ⟨List.nil_suffix, h.bytes_eq, hmark, hmark, Token.scanFrom_nil _⟩

theorem kind_ne (h : T.Shows p us) (ht : t ∈ us) : t.kind ≠ .endOfInput :=
  T.kind_ne t (h.suffix.mem ht)

/-- The current token is the first one. -/
theorem current_cons (h : T.Shows p (t :: us)) : p.current = t := h.current_eq

theorem current_nil (h : T.Shows p []) : p.current = T.mark := h.current_eq

/-- The current token is the mark of the end exactly if no token is left. -/
theorem current_kind_eq_endOfInput (h : T.Shows p us) :
    p.current.kind = .endOfInput ↔ us = [] := by
  cases us with
  | nil => simp [h.current_nil, mark, Token.endOfInput]
  | cons t us => simp [h.current_cons, h.kind_ne List.mem_cons_self]

/-- What the parser has not moved past is what it shows. -/
theorem unread_eq (h : T.Shows p us) : p.unread = us := by
  have htake : ∀ vs, (us ++ vs).takeWhile (·.kind ≠ .endOfInput) =
      us ++ vs.takeWhile (·.kind ≠ .endOfInput) := fun vs =>
    List.takeWhile_append_of_pos fun t ht => decide_eq_true (h.kind_ne ht)
  unfold Parser.unread
  rw [h.current_eq, h.peek_eq, h.remaining_eq]
  match us, htake with
  | [], _ => rfl
  | [t], htake => exact htake [T.mark]
  | t :: u :: us, htake =>
    have hall := htake []
    rw [List.takeWhile_nil, List.append_nil] at hall
    exact hall

/-- There are no more tokens than a parser has characters in front of it, but for the two that it
sees. -/
theorem length_le (h : T.Shows p us) : us.length ≤ p.reader.rest.length + 2 := by
  have hle := Token.length_scanFrom_le p.reader.offset p.reader.rest
  have hremaining := congrArg List.length h.remaining_eq
  rw [List.length_tail, List.length_tail, Reader.remaining] at hremaining
  omega

end Shows

/-! ## Places -/

/-- The tokens, and the mark behind them. -/
def stream (T : Tape) : List Token := T.tokens ++ [T.mark]

/-- The place of the first of so many tokens that are left. -/
def place (T : Tape) (left : Nat) : Nat := T.tokens.length - left

/-- The first of the tokens that are left stands at its place. -/
theorem stream_place (h : us <:+ T.tokens) :
    T.stream[T.place us.length]? = some (us.headD T.mark) := by
  obtain ⟨front, heq⟩ := h
  have hindex : T.place us.length = front.length := by
    rw [place, ← heq, List.length_append, Nat.add_sub_cancel]
  rw [stream, hindex, ← heq, List.append_assoc, List.getElem?_append_right (Nat.le_refl _),
    Nat.sub_self]
  cases us <;> rfl

end Tape

end MonkeyLang
