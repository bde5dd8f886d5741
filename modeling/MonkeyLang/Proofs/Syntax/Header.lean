import MonkeyLang.Proofs.Syntax.Errors

/-!
# Bindings with a malformed header

A binding in which something else stands in place of the name, or of the sign behind it, is given
up behind the next semicolon, whatever stands in between: blocks, strings, characters that begin no
token, or nothing at all (`Production.Unbounded.statement_name_fault`, `statement_sign_fault`).
Where a token ends the text behind it is scanned as if it stood alone (`Token.scanFrom_split`), so
what is read behind that semicolon does not depend on the binding, and its errors come to one in
all (`parse_of_headerFault`).
-/

namespace MonkeyLang

open Token

/-! ## What a malformed header leaves to be read -/

namespace Production

/-- Without a semicolon nothing is behind one. -/
theorem afterSemicolon_eq_nil {ts : List Terminal} (h : ∀ t ∈ ts, t.kind ≠ .semicolon) :
    afterSemicolon ts = [] := by
  induction ts with
  | nil => rfl
  | cons t rest ih =>
    obtain ⟨ht, hrest⟩ := List.forall_mem_cons.1 h
    rw [afterSemicolon, if_neg ht, ih hrest]

/-- What is behind the first semicolon. -/
theorem afterSemicolon_append {front : List Terminal} (h : ∀ t ∈ front, t.kind ≠ .semicolon)
    {t : Terminal} (ht : t.kind = .semicolon) (rest : List Terminal) :
    afterSemicolon (front ++ t :: rest) = rest := by
  induction front with
  | nil => rw [List.nil_append, afterSemicolon, if_pos ht]
  | cons u front ih =>
    obtain ⟨hu, hfront⟩ := List.forall_mem_cons.1 h
    rw [List.cons_append, afterSemicolon, if_neg hu, ih hfront]

/-- Something else in place of a terminal that is due is one mistake and stays to be read. -/
theorem expect_of_ne {kind : Kind} {ts : List Terminal} (h : ahead ts ≠ kind) :
    expect kind ts = ⟨[⟨.unexpected kind (ahead ts), ts.length⟩], .failed ts false⟩ := by
  cases ts with
  | nil => rfl
  | cons t rest => exact if_neg h

namespace Unbounded

variable {l x : String} {ts : List Terminal}

theorem statement_name_fault (h : ahead ts ≠ .identifier) :
    statement (⟨.letWord, l⟩ :: ts) =
      ⟨[⟨.unexpected .identifier (ahead ts), ts.length⟩], .found none (afterSemicolon ts)⟩ := by
  rw [statement_binding, attempt, bind_of_failed (expect_of_ne h)]
  rfl

theorem statement_sign_fault (h : ahead ts ≠ .assign) :
    statement (⟨.letWord, l⟩ :: ⟨.identifier, x⟩ :: ts) =
      ⟨[⟨.unexpected .assign (ahead ts), ts.length⟩], .found none (afterSemicolon ts)⟩ := by
  rw [statement_binding, attempt, expect_bind, bind_of_failed (expect_of_ne h)]
  rfl

end Unbounded

/-- A statement that could not be read leaves its mistakes behind, and the program goes on where it
was given up. -/
theorem ofTerminals_of_none {t : Terminal} {ts us : List Terminal} {ms : List Mistake}
    (h : Unbounded.statement (t :: ts) = ⟨ms, .found none us⟩) :
    Program.ofTerminals (t :: ts) =
      { Program.ofTerminals us with mistakes := ms ++ (Program.ofTerminals us).mistakes } := by
  obtain ⟨ns, ss, hus⟩ := Unbounded.statements_found us
  rw [ofTerminals_eq, ofTerminals_eq, Unbounded.statements_cons, bind_of_found h,
    bind_of_found hus, hus]
  simp [pure, succeed]

end Production

/-! ## Headers in a token stream -/

/-- The tokens begin with a binding that has `t` in place of its name, or in place of the sign
behind its name. -/
inductive HeaderFault : List Token → Kind → Token → Prop
  | name {l t rest} : l.kind = .letWord → t.kind ≠ .identifier →
      HeaderFault (l :: t :: rest) .identifier t
  | sign {l x t rest} : l.kind = .letWord → x.kind = .identifier → t.kind ≠ .assign →
      HeaderFault (l :: x :: t :: rest) .assign t

section
variable {ts us : List Token} {t : Token} {bytes : Nat}

/-- A token of a stream that is not the mark of its end is the first one of those in front of
that mark. -/
theorem exists_cons_of_stream (h : ts ++ [endOfInput bytes] = t :: us)
    (ht : t.kind ≠ .endOfInput) : ∃ vs, ts = t :: vs ∧ vs ++ [endOfInput bytes] = us := by
  cases ts with
  | nil =>
    obtain ⟨rfl, -⟩ := List.cons.inj h
    exact absurd rfl ht
  | cons u vs =>
    obtain ⟨rfl, rfl⟩ := List.cons.inj h
    exact ⟨vs, rfl, rfl⟩

theorem ahead_of_stream (h : ts ++ [endOfInput bytes] = t :: us) :
    Production.ahead (ts.map Token.toTerminal) = t.kind := by
  cases ts <;> obtain ⟨rfl, -⟩ := List.cons.inj h <;> rfl

theorem spanOfLeft_of_stream (h : ts ++ [endOfInput bytes] = t :: us) (front : List Token) :
    spanOfLeft (front ++ ts).toArray bytes ts.length = t.span := by
  rw [spanOfLeft_append]
  cases ts <;> obtain ⟨rfl, -⟩ := List.cons.inj h <;> rfl

end

/-- A malformed header is one mistake, about the token that is out of place, and all else that is
read is read behind the next semicolon. -/
theorem HeaderFault.ofTerminals {ts : List Token} {bytes : Nat} {expected : Kind} {t : Token}
    (h : HeaderFault (ts ++ [endOfInput bytes]) expected t) {us : List Terminal}
    (hus : Production.afterSemicolon (ts.map Token.toTerminal) = us) :
    ∃ left, spanOfLeft ts.toArray bytes left = t.span ∧
      Program.ofTerminals (ts.map Token.toTerminal) = { Program.ofTerminals us with
        mistakes := ⟨.unexpected expected t.kind, left⟩ :: (Program.ofTerminals us).mistakes } := by
  subst hus
  -- In front of `t` there is no semicolon, so the next one is the same from there on.
  generalize hstream : ts ++ [endOfInput bytes] = stream at h
  cases h with
  | @name l t rest hl ht =>
    obtain ⟨us, rfl, hus⟩ := exists_cons_of_stream hstream (by rw [hl]; exact Kind.noConfusion)
    have hahead := ahead_of_stream hus
    refine ⟨us.length, spanOfLeft_of_stream hus [l], ?_⟩
    obtain ⟨⟨kind, literal⟩, span⟩ := l
    obtain rfl : kind = .letWord := hl
    rw [← hahead] at ht
    have hstatement := Production.Unbounded.statement_name_fault (l := literal) ht
    rw [hahead, List.length_map] at hstatement
    exact Production.ofTerminals_of_none hstatement
  | @sign l x t rest hl hx ht =>
    obtain ⟨us, rfl, hus⟩ := exists_cons_of_stream hstream (by rw [hl]; exact Kind.noConfusion)
    obtain ⟨vs, rfl, hvs⟩ := exists_cons_of_stream hus (by rw [hx]; exact Kind.noConfusion)
    have hahead := ahead_of_stream hvs
    refine ⟨vs.length, spanOfLeft_of_stream hvs [l, x], ?_⟩
    obtain ⟨⟨kind, literal⟩, span⟩ := l
    obtain rfl : kind = .letWord := hl
    obtain ⟨⟨kind, name⟩, span'⟩ := x
    obtain rfl : kind = .identifier := hx
    rw [← hahead] at ht
    have hstatement := Production.Unbounded.statement_sign_fault (l := literal) (x := name) ht
    rw [hahead, List.length_map] at hstatement
    exact Production.ofTerminals_of_none hstatement

/-! ## The text behind a token -/

namespace Token

variable {offset : Nat} {text : List Char} {t : Token} {ts : List Token}

/-- Behind the first token of a text the rest is scanned as a text of its own. -/
theorem scanFrom_cons (h : scanFrom offset text = t :: ts) :
    ∃ a b, text = a ++ b ∧ t.span.stop = offset + byteLength a ∧ ts = scanFrom t.span.stop b := by
  rcases hn : next? offset text with _ | ⟨u, rest⟩
  · rw [scanFrom_eq_nil hn] at h
    cases h
  · rw [scanFrom_of_next? hn] at h
    obtain ⟨rfl, rfl⟩ := List.cons.inj h
    rcases hd : text.dropWhile isBlank with _ | ⟨c, tail⟩
    · rw [next?_of_blank offset hd] at hn
      cases hn
    · rw [next?_of_lexeme offset hd] at hn
      obtain ⟨rfl, rfl⟩ := Prod.mk.inj (Option.some.inj hn)
      refine ⟨text.takeWhile isBlank ++ (Lexeme.read c tail).text, _, ?_, ?_, rfl⟩
      · rw [List.append_assoc, Lexeme.read_append, ← hd, List.takeWhile_append_dropWhile]
      · rw [byteLength_append, ← Nat.add_assoc]
        rfl

/-- Behind any token of a text the rest is scanned as a text of its own. -/
theorem scanFrom_split {front : List Token} (h : scanFrom offset text = front ++ t :: ts) :
    ∃ a b, text = a ++ b ∧ t.span.stop = offset + byteLength a ∧ ts = scanFrom t.span.stop b := by
  induction front generalizing offset text with
  | nil => exact scanFrom_cons h
  | cons u front ih =>
    obtain ⟨a, b, rfl, hstop, hrest⟩ := scanFrom_cons h
    obtain ⟨a', b', rfl, hstop', hts⟩ := ih hrest.symm
    refine ⟨a ++ a', b', (List.append_assoc _ _ _).symm, ?_, hts⟩
    rw [hstop', hstop, byteLength_append, Nat.add_assoc]

end Token

/-- The source is `a` and `b`, where `a` ends with the first semicolon among the tokens, or is all
there is if none of them is one. -/
structure CutBehindSemicolon (source a b : String) : Prop where
  eq_append : source = a ++ b
  stop_eq : ∀ t ∈ (scan source).find? (·.kind == .semicolon), t.span.stop = a.utf8ByteSize
  eq_empty : (scan source).find? (·.kind == .semicolon) = none → b = ""

/-- Every source can be cut behind its first semicolon, and the terminals there are those of the
text that is cut off. -/
theorem exists_cutBehindSemicolon (source : String) :
    ∃ a b, CutBehindSemicolon source a b ∧
      (∃ front, scan source = front ++ (scan b).map (Token.shift a.utf8ByteSize)) ∧
      Production.afterSemicolon (terminals source.toList) = terminals b.toList := by
  cases hfind : (scan source).find? (·.kind == .semicolon) with
  | none =>
    have hkind : ∀ t ∈ terminals source.toList, t.kind ≠ .semicolon := by
      intro t ht
      obtain ⟨u, hu, rfl⟩ := List.mem_map.1 ht
      simpa using List.find?_eq_none.1 hfind u hu
    refine ⟨source, "", ⟨String.append_empty.symm, ?_, fun _ => rfl⟩, ⟨scan source, ?_⟩, ?_⟩
    · simp [hfind]
    · simp [scan]
    · rw [Production.afterSemicolon_eq_nil hkind, String.toList_empty, terminals_nil]
  | some t =>
    obtain ⟨ht, front, ts, htokens, hfront⟩ := List.find?_eq_some_iff_append.1 hfind
    obtain ⟨a, b, htext, hstop, hts⟩ := Token.scanFrom_split htokens
    have hbytes : t.span.stop = (String.ofList a).utf8ByteSize := by
      rw [hstop, Nat.zero_add, byteLength_ofList]
    have hshift := scanFrom_shift 0 t.span.stop b
    rw [Nat.zero_add] at hshift
    refine ⟨.ofList a, .ofList b, ⟨?_, ?_, ?_⟩, ⟨front ++ [t], ?_⟩, ?_⟩
    · rw [← String.ofList_append, ← htext, String.ofList_toList]
    · rw [hfind]
      rintro _ ⟨⟩
      exact hbytes
    · rw [hfind]
      exact fun h => nomatch h
    · rw [htokens, hts, hshift, ← hbytes, scan, String.toList_ofList, List.append_assoc]
      rfl
    · have hterminals : terminals source.toList =
          front.map toTerminal ++ t.toTerminal :: terminals b := by
        rw [← map_toTerminal_scanFrom t.span.stop b, ← hts, ← List.map_cons, ← List.map_append,
          ← htokens]
        rfl
      rw [hterminals, String.toList_ofList]
      refine Production.afterSemicolon_append (fun u hu => ?_) (beq_iff_eq.1 ht) _
      obtain ⟨v, hv, rfl⟩ := List.mem_map.1 hu
      simpa using hfront v hv

/-- A malformed header costs one error, about the token that is out of place, and nothing behind
its semicolon: what is read is what is read from the text behind that semicolon, and so are the
other errors, as many bytes further back as that text stands. -/
theorem parse_of_headerFault {source : String} {expected : Kind} {t : Token}
    (h : HeaderFault (stream source) expected t) :
    ∃ a b, CutBehindSemicolon source a b ∧
      (parse source).program = (parse b).program ∧
      (parse source).errors = ⟨.unexpected expected t.kind, t.span⟩ ::
        (parse b).errors.map (SyntaxError.shift a.utf8ByteSize) := by
  obtain ⟨a, b, hcut, ⟨front, hfront⟩, hafter⟩ := exists_cutBehindSemicolon source
  obtain ⟨left, hspan, hread⟩ := h.ofTerminals hafter
  replace hread : Program.ofTerminals (terminals source.toList) = _ := hread
  refine ⟨a, b, hcut, by rw [program_parse, program_parse, hread], ?_⟩
  -- The other mistakes are placed from the end, where the tokens are those of `b`.
  have hbytes : source.utf8ByteSize = a.utf8ByteSize + b.utf8ByteSize := by
    rw [hcut.eq_append, String.utf8ByteSize_append]
  rw [errors_parse, errors_parse, hread, List.map_cons, List.map_map]
  refine List.cons_eq_cons.2 ⟨congrArg _ hspan, List.map_congr_left fun m hm => ?_⟩
  rw [hfront, hbytes]
  exact Mistake.locate_append (Mistake.left_le hm) _ _ _

/-- A header without a name, with a semicolon in a string and the next one in a block, behind which
one more header fails and a brace is left. -/
theorem parse_of_headerFault_block :
    HeaderFault (stream "let = if (x) \x7b \"é;\"; let y 5; \x7d") .identifier
      ⟨⟨.assign, "="⟩, ⟨4, 5⟩⟩ ∧
    ∃ a b, CutBehindSemicolon "let = if (x) \x7b \"é;\"; let y 5; \x7d" a b ∧
      (parse "let = if (x) \x7b \"é;\"; let y 5; \x7d").program = (parse b).program ∧
      (parse "let = if (x) \x7b \"é;\"; let y 5; \x7d").errors =
        ⟨.unexpected .identifier .assign, ⟨4, 5⟩⟩ ::
          (parse b).errors.map (SyntaxError.shift a.utf8ByteSize) := by
  have hstream : stream "let = if (x) \x7b \"é;\"; let y 5; \x7d" =
      ⟨⟨.letWord, "let"⟩, ⟨0, 3⟩⟩ :: ⟨⟨.assign, "="⟩, ⟨4, 5⟩⟩ ::
        (stream "let = if (x) \x7b \"é;\"; let y 5; \x7d").drop 2 := by
    decide +kernel
  have hfault : HeaderFault (stream "let = if (x) \x7b \"é;\"; let y 5; \x7d") .identifier
      ⟨⟨.assign, "="⟩, ⟨4, 5⟩⟩ := by
    rw [hstream]
    exact .name rfl (by decide)
  exact ⟨hfault, parse_of_headerFault hfault⟩

end MonkeyLang
