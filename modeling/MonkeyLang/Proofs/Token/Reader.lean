import MonkeyLang.Proofs.Syntax.Seam

/-!
# Readers hand out every token once

However `next`, `advance?` and `drain` are mixed, a reader hands out the tokens of its source from
the front, each of them once, and nothing but the mark of the end behind the last one. `HandsOut`
says so for some tokens handed out in a row; one request does (`handsOut_ask`), and so do requests
in a row (`handsOut_askAll`). A program that is read then is the one that the tokens left make up,
which is that of the text behind the last token handed out (`reader_hands_out_once`).
-/

namespace MonkeyLang

/-- Tokens that stand further back are read as the same program, with errors as much further
back. -/
theorem Parsed.ofTokens_shift (tokens : List Token) (n bytes : Nat) :
    (ofTokens (tokens.map (Token.shift n)) (n + bytes)).program =
        (ofTokens tokens bytes).program ∧
      (ofTokens (tokens.map (Token.shift n)) (n + bytes)).errors =
        (ofTokens tokens bytes).errors.map (SyntaxError.shift n) := by
  have hterminals : (tokens.map (Token.shift n)).map Token.toTerminal =
      tokens.map Token.toTerminal := by
    rw [List.map_map]
    rfl
  simp only [ofTokens, hterminals, List.map_map]
  refine ⟨trivial, List.map_congr_left fun m hm => ?_⟩
  obtain ⟨us, hus, habout⟩ := Program.about_mistakes hm
  refine Mistake.locate_append ?_ [] n bytes
  rw [habout.left_eq]
  exact Nat.le_trans hus.length_le (Nat.le_of_eq (List.length_map _))

/-- What stands behind a token is an end of the text. -/
theorem Token.next?_suffix {offset : Nat} {text rest : List Char} {t : Token}
    (h : next? offset text = some (t, rest)) : rest <:+ text := by
  rcases hd : text.dropWhile isBlank with _ | ⟨c, tail⟩
  · rw [next?_of_blank offset hd] at h
    cases h
  · rw [next?_of_lexeme offset hd] at h
    obtain ⟨-, rfl⟩ := Prod.mk.inj (Option.some.inj h)
    have hlexeme : (Lexeme.read c tail).rest <:+ text.dropWhile isBlank :=
      ⟨_, (Lexeme.read_append c tail).trans hd.symm⟩
    exact hlexeme.trans (List.dropWhile_suffix isBlank)

namespace Reader

/-- The ways to ask a reader for tokens. -/
inductive Request where
  /-- For the next token, or for the mark of the end. -/
  | next
  /-- For the next token, if there is one. -/
  | advance
  /-- For all tokens that are left. -/
  | drain

/-- What a reader answers. -/
inductive Answer where
  | token (t : Token)
  | nothing
  | tokens (ts : List Token)

/-- The tokens that are handed out with an answer. -/
def Answer.handed : Answer → List Token
  | token t => [t]
  | nothing => []
  | tokens ts => ts

/-- What is answered when no token is left in a source of `bytes` bytes. -/
def Request.atEnd (bytes : Nat) : Request → Answer
  | next => .token (.endOfInput bytes)
  | advance => .nothing
  | drain => .tokens []

/-- The answer to a request, and the reader behind it. -/
def ask (r : Reader) : Request → Answer × Reader
  | .next => (.token r.next.1, r.next.2)
  | .advance => (r.advance?.1.elim .nothing .token, r.advance?.2)
  | .drain => (.tokens r.drain.1, r.drain.2)

/-- The answers to requests in a row, and the reader behind them. -/
def askAll (r : Reader) : List Request → List Answer × Reader
  | [] => ([], r)
  | q :: qs => ((r.ask q).1 :: ((r.ask q).2.askAll qs).1, ((r.ask q).2.askAll qs).2)

/-- Asked for the next token again and again until there is none, the reader gives these tokens, and
is left as `r'`. -/
inductive Drains : Reader → List Token → Reader → Prop
  | done {r r'} : r.advance? = (none, r') → Drains r [] r'
  | more {r r' r'' t ts} : r.advance? = (some t, r') → Drains r' ts r'' → Drains r (t :: ts) r''

variable {r r' r'' : Reader} {ts ts' : List Token}

/-! ## Tokens in a row -/

/-- `skip` takes as many tokens from the front of those that are left. -/
theorem skip_remaining (i : Nat) (r : Reader) :
    (r.skip i).source = r.source ∧ (r.skip i).remaining = r.remaining.drop i := by
  induction i generalizing r with
  | zero => exact ⟨rfl, rfl⟩
  | succ i ih =>
    obtain ⟨hsource, hremaining⟩ := ih r.next.2
    rw [skip, hsource, hremaining, next_eq]
    refine ⟨r.advance?_source, ?_⟩
    rw [r.advance?_remaining.2, List.drop_tail]

/-! ## All tokens that are left -/

theorem Drains.unique (h : Drains r ts r') (h' : Drains r ts' r'') : ts = ts' ∧ r' = r'' := by
  induction h generalizing ts' with
  | done h =>
    cases h' with
    | done h' =>
      cases h.symm.trans h'
      exact ⟨rfl, rfl⟩
    | more h' _ => cases h.symm.trans h'
  | more h _ ih =>
    cases h' with
    | done h' => cases h.symm.trans h'
    | more h' hrest =>
      cases h.symm.trans h'
      obtain ⟨rfl, rfl⟩ := ih hrest
      exact ⟨rfl, rfl⟩

/-- Asking for the next token until there is none ends, with what `drain` hands out at once. -/
theorem drains_drain (r : Reader) : Drains r r.drain.1 r.drain.2 := by
  obtain ⟨ts, hts⟩ : ∃ ts, r.remaining = ts := ⟨_, rfl⟩
  induction ts generalizing r with
  | nil =>
    obtain ⟨hhead, -⟩ := r.advance?_remaining
    rw [hts] at hhead
    rw [drain, hts]
    refine .done (Prod.ext hhead ?_)
    unfold advance? at hhead ⊢
    split at hhead
    · rfl
    · cases hhead
  | cons t ts ih =>
    obtain ⟨hhead, htail⟩ := r.advance?_remaining
    rw [hts] at hhead htail
    have hrest := ih _ htail
    rw [drain, htail, advance?_source] at hrest
    rw [drain, hts]
    exact .more (Prod.ext hhead rfl) hrest

/-! ## Requests in a row -/

/-- The tokens `handed` are taken from the front of `left`, of which `left'` are left; where none
is, marks of the end follow. -/
def HandsOut (bytes : Nat) (left handed left' : List Token) : Prop :=
  ∃ front k, left = front ++ left' ∧ handed = front ++ List.replicate k (.endOfInput bytes) ∧
    (k ≠ 0 → left' = [])

theorem HandsOut.of_append (bytes : Nat) (front left : List Token) :
    HandsOut bytes (front ++ left) front left :=
  ⟨front, 0, rfl, (List.append_nil front).symm, fun h => absurd rfl h⟩

theorem HandsOut.append {bytes : Nat} {left left' left'' handed handed' : List Token}
    (h : HandsOut bytes left handed left') (h' : HandsOut bytes left' handed' left'') :
    HandsOut bytes left (handed ++ handed') left'' := by
  obtain ⟨front, k, rfl, rfl, hk⟩ := h
  obtain ⟨front', k', rfl, rfl, hk'⟩ := h'
  rcases Nat.eq_zero_or_pos k with rfl | hpos
  · refine ⟨front ++ front', k', ?_, ?_, hk'⟩
    · rw [List.append_assoc]
    · rw [List.replicate_zero, List.append_nil, List.append_assoc]
  · -- Behind a mark of the end there is nothing left to hand out.
    obtain ⟨rfl, rfl⟩ := List.append_eq_nil_iff.1 (hk (Nat.ne_of_gt hpos))
    refine ⟨front, k + k', rfl, ?_, fun _ => rfl⟩
    rw [List.nil_append, List.append_assoc, List.replicate_append_replicate]

theorem ask_source (q : Request) (r : Reader) : (r.ask q).2.source = r.source := by
  cases q with
  | next =>
    rw [ask, next_eq]
    exact r.advance?_source
  | advance => exact r.advance?_source
  | drain => rfl

/-- With an answer tokens are handed out from the front, or the mark of the end behind them. -/
theorem handsOut_ask (q : Request) (r : Reader) :
    HandsOut r.source.utf8ByteSize r.remaining (r.ask q).1.handed (r.ask q).2.remaining := by
  obtain ⟨hhead, htail⟩ := r.advance?_remaining
  cases q with
  | next =>
    rw [ask, next_eq]
    show HandsOut _ _ [_] r.advance?.2.remaining
    rw [htail]
    cases r.remaining with
    | nil => exact ⟨[], 1, rfl, rfl, fun _ => rfl⟩
    | cons t ts => exact .of_append _ [t] ts
  | advance =>
    show HandsOut _ _ (r.advance?.1.elim Answer.nothing Answer.token).handed r.advance?.2.remaining
    rw [hhead, htail]
    cases r.remaining with
    | nil => exact .of_append _ [] []
    | cons t ts => exact .of_append _ [t] ts
  | drain =>
    have hnothing : (r.ask .drain).2.remaining = [] := Token.scanFrom_nil _
    rw [hnothing]
    have hall := HandsOut.of_append r.source.utf8ByteSize r.remaining []
    rwa [List.append_nil] at hall

/-- So they are with answers in a row. -/
theorem handsOut_askAll (qs : List Request) (r : Reader) :
    (r.askAll qs).2.source = r.source ∧
      HandsOut r.source.utf8ByteSize r.remaining ((r.askAll qs).1.flatMap Answer.handed)
        (r.askAll qs).2.remaining := by
  induction qs generalizing r with
  | nil => exact ⟨rfl, .of_append _ [] _⟩
  | cons q qs ih =>
    obtain ⟨hsource, hrest⟩ := ih (r.ask q).2
    rw [ask_source] at hsource hrest
    refine ⟨hsource, ?_⟩
    rw [askAll, List.flatMap_cons]
    exact (handsOut_ask q r).append hrest

/-- Once no token is left, every request is answered as it is at the end. -/
theorem askAll_of_remaining_eq_nil (qs : List Request) {r : Reader} (h : r.remaining = []) :
    (r.askAll qs).1 = qs.map (Request.atEnd r.source.utf8ByteSize) := by
  induction qs generalizing r with
  | nil => rfl
  | cons q qs ih =>
    have hanswer : (r.ask q).1 = q.atEnd r.source.utf8ByteSize := by
      cases q with
      | next => rw [ask, next_eq, h]; rfl
      | advance => rw [ask, r.advance?_remaining.1, h]; rfl
      | drain => rw [ask, drain, h]; rfl
    have hleft : (r.ask q).2.remaining = [] := by
      obtain ⟨front, -, hfront, -⟩ := handsOut_ask q r
      rw [h] at hfront
      exact (List.append_eq_nil_iff.1 hfront.symm).2
    have hrest := ih hleft
    rw [ask_source] at hrest
    rw [askAll, List.map_cons, hanswer, hrest]

/-! ## The text behind the last token -/

/-- The reader is at a place in its source: what is left of the text begins at its offset. -/
def Placed (r : Reader) : Prop :=
  ∃ front, r.source.toList = front ++ r.rest ∧ byteLength front = r.offset

theorem placed_ofSource (source : String) : (ofSource source).Placed := ⟨[], rfl, rfl⟩

/-- At the end nothing is left of the text. -/
theorem placed_drain (r : Reader) : r.drain.2.Placed :=
  ⟨r.source.toList, (List.append_nil _).symm, byteLength_toList _⟩

theorem Placed.advance? (h : r.Placed) : r.advance?.2.Placed := by
  obtain ⟨front, hsource, hoffset⟩ := h
  unfold Reader.advance?
  split
  · exact r.placed_drain
  · next t rest hnext =>
    obtain ⟨text, htext⟩ := Token.next?_suffix hnext
    refine ⟨front ++ text, ?_, ?_⟩
    · rw [hsource, ← htext, List.append_assoc]
    · have hstop := Token.next?_stop hnext
      rw [← htext, byteLength_append] at hstop
      show byteLength (front ++ text) = t.span.stop
      rw [byteLength_append, hoffset]
      omega

theorem Placed.askAll (h : r.Placed) (qs : List Request) : (r.askAll qs).2.Placed := by
  induction qs generalizing r with
  | nil => exact h
  | cons q qs ih =>
    refine ih ?_
    cases q with
    | next =>
      rw [ask, next_eq]
      exact h.advance?
    | advance => exact h.advance?
    | drain => exact r.placed_drain

/-- What is read by a reader at a place of its source is the program of the text behind that place,
with errors further back by the text in front. -/
theorem Placed.parse_eq (h : r.Placed) :
    ∃ a b : String, r.source = a ++ b ∧
      r.remaining = (Token.scan b).map (Token.shift a.utf8ByteSize) ∧
      r.parse.program = (MonkeyLang.parse b).program ∧
      r.parse.errors = (MonkeyLang.parse b).errors.map (SyntaxError.shift a.utf8ByteSize) := by
  obtain ⟨front, hsource, hoffset⟩ := h
  have hcut : r.source = .ofList front ++ .ofList r.rest := by
    rw [← String.ofList_append, ← hsource, String.ofList_toList]
  have hleft : r.remaining = (Token.scan (.ofList r.rest)).map
      (Token.shift (String.ofList front).utf8ByteSize) := by
    have hscan := Token.scanFrom_shift 0 (byteLength front) r.rest
    rw [Nat.zero_add] at hscan
    rw [remaining, ← hoffset, hscan, byteLength_ofList, Token.scan, String.toList_ofList]
  have hparse := Parsed.ofTokens_shift (Token.scan (.ofList r.rest))
    (String.ofList front).utf8ByteSize (String.ofList r.rest).utf8ByteSize
  rw [← hleft, ← String.utf8ByteSize_append, ← hcut] at hparse
  rw [← r.parse_eq_ofTokens, ← MonkeyLang.parse_eq] at hparse
  exact ⟨_, _, hcut, hleft, hparse⟩

/-- Ask the reader of a source for tokens in any ways, one after the other. What has been handed out
are the tokens of the source from the front, and behind the last of them marks of its end; `left`
are the other ones, up to the mark of the end. The first of these is what comes next; all of them
are handed out by `drain`, and by asking for the next one until there is none, which ends; and
`next` goes on with them and then with the mark of the end. When none is left all requests are
answered as at the end, whatever is asked for later. A program that is read is read from the tokens
that are left; it is the program of the text from some place on, with errors further back by the
text in front. -/
theorem reader_hands_out_once (source : String) (qs : List Request) :
    let mark := Token.endOfInput source.utf8ByteSize
    let answers := ((ofSource source).askAll qs).1
    let r := ((ofSource source).askAll qs).2
    ∃ front left k,
      Token.stream source = front ++ left ++ [mark] ∧
      answers.flatMap Answer.handed = front ++ List.replicate k mark ∧ (k ≠ 0 → left = []) ∧
      (r.ask .next).1 = .token (left.headD mark) ∧
      (r.ask .advance).1 = left.head?.elim .nothing .token ∧
      (r.ask .drain).1 = .tokens left ∧ (∀ ts r', Drains r ts r' ↔ ts = left ∧ r' = r.drain.2) ∧
      (∀ i, (r.skip i).next.1 = left.getD i mark) ∧
      (left = [] → ∀ more,
        (r.askAll more).1 = more.map (Request.atEnd source.utf8ByteSize)) ∧
      r.parse = .ofTokens left source.utf8ByteSize ∧
      ∃ a b : String, source = a ++ b ∧ left = (Token.scan b).map (Token.shift a.utf8ByteSize) ∧
        r.parse.program = (MonkeyLang.parse b).program ∧
        r.parse.errors = (MonkeyLang.parse b).errors.map (SyntaxError.shift a.utf8ByteSize) := by
  intro mark answers r
  obtain ⟨hsource, front, k, hscan, hanswers, hk⟩ := handsOut_askAll qs (ofSource source)
  have hr : r.source = source := hsource
  refine ⟨front, r.remaining, k, ?_, hanswers, hk, ?_, ?_, rfl, fun ts r' => ⟨fun h => ?_, ?_⟩,
    fun i => ?_, fun h more => ?_, ?_, ?_⟩
  · rw [Token.stream, ← remaining_ofSource, hscan]
  · rw [ask, next_eq, hr]
  · rw [ask, r.advance?_remaining.1]
  · exact h.unique r.drains_drain
  · rintro ⟨rfl, rfl⟩
    exact r.drains_drain
  · obtain ⟨hskip, hdrop⟩ := r.skip_remaining i
    rw [next_eq, hskip, hdrop, hr, List.headD_eq_head?_getD, List.head?_drop,
      List.getD_eq_getElem?_getD]
  · rw [askAll_of_remaining_eq_nil more h, hr]
  · rw [r.parse_eq_ofTokens, hr]
  · have hplaced := (placed_ofSource source).askAll qs
    obtain ⟨a, b, hcut, hread⟩ := hplaced.parse_eq
    exact ⟨a, b, hr.symm.trans hcut, hread⟩

end Reader

end MonkeyLang
