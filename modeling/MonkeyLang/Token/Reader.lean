import MonkeyLang.Token.Scan

/-!
# Reading tokens on demand

A `Reader` hands out the tokens of a source one at a time. `next` answers with the end mark once
the tokens have run out, as often as it is asked; `advance?` stops instead, and `drain` takes all
that is left. The three share one position, so they may be mixed freely.
-/

namespace MonkeyLang

/-- A position in a source: what is left of the text, and the byte offset where that begins. -/
structure Reader where
  source : String
  offset : Nat
  rest : List Char

namespace Reader

/-- The reader at the beginning of a source. -/
def ofSource (source : String) : Reader := ⟨source, 0, source.toList⟩

/-- The next token, if there is one, and the reader behind it. -/
def advance? (r : Reader) : Option Token × Reader :=
  match Token.next? r.offset r.rest with
  | none => (none, { r with offset := r.source.utf8ByteSize, rest := [] })
  | some (t, rest) => (some t, { r with offset := t.span.stop, rest := rest })

/-- The next token, or the end mark of the source when there is none. -/
def next (r : Reader) : Token × Reader :=
  match r.advance? with
  | (none, r) => (.endOfInput r.source.utf8ByteSize, r)
  | (some t, r) => (t, r)

/-- The tokens not handed out so far. -/
def remaining (r : Reader) : List Token := Token.scanFrom r.offset r.rest

/-- All tokens not handed out so far, and the reader behind them. -/
def drain (r : Reader) : List Token × Reader :=
  (r.remaining, { r with offset := r.source.utf8ByteSize, rest := [] })

/-- The reader after `n` calls of `next`. -/
def skip : Nat → Reader → Reader
  | 0, r => r
  | n + 1, r => skip n r.next.2

@[simp] theorem remaining_ofSource (source : String) :
    (ofSource source).remaining = Token.scan source := rfl

/-- A reader hands out what remains from the front. -/
theorem advance?_remaining (r : Reader) :
    r.advance?.1 = r.remaining.head? ∧ r.advance?.2.remaining = r.remaining.tail := by
  unfold advance? remaining
  split
  · next h => simp [Token.scanFrom_eq_nil h]
  · next h => simp [Token.scanFrom_of_next? h]

theorem advance?_source (r : Reader) : r.advance?.2.source = r.source := by
  unfold advance?
  split <;> rfl

/-- `next` is `advance?` with the mark of the end in place of nothing. -/
theorem next_eq (r : Reader) :
    r.next = (r.remaining.headD (.endOfInput r.source.utf8ByteSize), r.advance?.2) := by
  have hhead := r.advance?_remaining.1
  have hsource := r.advance?_source
  unfold next
  split
  · next r' h =>
    rw [h] at hhead hsource
    rw [h, List.headD_eq_head?_getD, ← hhead, ← hsource]
    rfl
  · next t r' h =>
    rw [h] at hhead
    rw [h, List.headD_eq_head?_getD, ← hhead]
    rfl

end Reader

end MonkeyLang
