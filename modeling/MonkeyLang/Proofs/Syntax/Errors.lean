import MonkeyLang.Proofs.Parser.Lockstep
import MonkeyLang.Proofs.Production.Order
import MonkeyLang.Proofs.Syntax.Seam
import MonkeyLang.Proofs.Token.Tiling

/-!
# Where errors are

The spans of a token stream start one behind the other, so a span names one token of the stream.
That of a syntax error is the one from which on as many tokens are left as the mistake says, and
the mark of the end when none is left (`Mistake.pointsAt`). So what is known of mistakes is known
of errors: which token one of them is about, that this token gives cause for it, and that errors
are in order (`errors_located`). The layout of a source has no part in it but for the spans
(`parse_congr_terminals`).
-/

namespace MonkeyLang

open Token

/-! ## The spans of a token stream -/

section
variable {source : String} {t u : Token}

theorem Token.Stands.start_lt_stop {source front : List Char} {l : Lexeme}
    (h : Token.Stands source front l t) : t.span.start < t.span.stop := by
  have hpos := List.length_pos_iff.2 h.exact.text_ne_nil
  have hle := length_le_byteLength l.text
  rw [h.start_eq, h.stop_eq]
  omega

/-- A token starts behind the ones in front of it. -/
theorem stream_starts (source : String) :
    (stream source).Pairwise fun t u => t.span.start < u.span.start := by
  have htiling : Tiling source.toList [] (scan source) := tiling_scanFrom _ rfl
  refine List.pairwise_append.2 ⟨?_, List.pairwise_singleton _ _, fun t ht u hu => ?_⟩
  · refine htiling.pairwise.imp_of_mem fun {t u} ht _ hle => ?_
    obtain ⟨_, _, hstands⟩ := htiling.stands t ht
    exact Nat.lt_of_lt_of_le hstands.start_lt_stop hle
  · obtain ⟨front, l, hstands⟩ := htiling.stands t ht
    obtain rfl := List.mem_singleton.1 hu
    have hlt := hstands.start_lt_stop
    have hbytes := congrArg byteLength hstands.source_eq
    rw [byteLength_toList, byteLength_append, byteLength_append] at hbytes
    have hstop := hstands.stop_eq
    show t.span.start < source.utf8ByteSize
    omega

/-- A token is a piece of its source, and the mark of the end is the empty one behind it. The
literal of an integer is what is written there. -/
theorem exists_piece_of_mem_stream (h : t ∈ stream source) :
    ∃ front text back, source.toList = front ++ (text ++ back) ∧
      t.span.start = byteLength front ∧ t.span.stop = byteLength front + byteLength text ∧
      (t.kind = .integer → t.literal.toList = text) := by
  rcases List.mem_append.1 h with h | h
  · have htiling : Tiling source.toList [] (scan source) := tiling_scanFrom _ rfl
    obtain ⟨front, l, hstands⟩ := htiling.stands t h
    refine ⟨front, l.text, l.rest, hstands.source_eq, hstands.start_eq, hstands.stop_eq, ?_⟩
    intro hkind
    rw [hstands.literal_eq (by rw [hkind]; exact Kind.noConfusion), String.toList_ofList]
  · obtain rfl := List.mem_singleton.1 h
    exact ⟨source.toList, [], [], by simp, (byteLength_toList source).symm,
      (byteLength_toList source).symm, Kind.noConfusion⟩

/-- Of two tokens the one that stands further back does not start before the other. -/
theorem start_le_of_le {i j : Nat} (ht : (stream source)[i]? = some t)
    (hu : (stream source)[j]? = some u) (hij : i ≤ j) : t.span.start ≤ u.span.start := by
  obtain ⟨hi, rfl⟩ := List.getElem?_eq_some_iff.1 ht
  obtain ⟨hj, rfl⟩ := List.getElem?_eq_some_iff.1 hu
  rcases Nat.lt_or_eq_of_le hij with hlt | rfl
  · exact Nat.le_of_lt (List.pairwise_iff_getElem.1 (stream_starts source) i j hi hj hlt)
  · exact Nat.le_refl _

/-- A span is that of one token at most. -/
theorem eq_of_span_eq {i j : Nat} (ht : (stream source)[i]? = some t)
    (hu : (stream source)[j]? = some u) (hspan : t.span = u.span) : i = j := by
  obtain ⟨hi, rfl⟩ := List.getElem?_eq_some_iff.1 ht
  obtain ⟨hj, rfl⟩ := List.getElem?_eq_some_iff.1 hu
  have hstarts := List.pairwise_iff_getElem.1 (stream_starts source)
  have hspan := congrArg Span.start hspan
  rcases Nat.lt_trichotomy i j with hlt | heq | hlt
  · exact absurd hspan (Nat.ne_of_lt (hstarts i j hi hj hlt))
  · exact heq
  · exact absurd hspan.symm (Nat.ne_of_lt (hstarts j i hj hi hlt))

end

/-! ## The token that an error is about -/

/-- The error is about the token: it has the span of the token, and the token gives cause for it. -/
structure SyntaxError.About (t : Token) (e : SyntaxError) : Prop where
  span_eq : e.span = t.span
  fits : e.cause.Fits [t.toTerminal]

/-- An integer that is too large is refused with its literal. -/
theorem SyntaxError.About.integer {t : Token} {e : SyntaxError} (h : e.About t) {literal : String}
    (hc : e.cause = .integerRange literal) : t.kind = .integer ∧ t.literal = literal := by
  have hfits := h.fits
  rw [hc] at hfits
  obtain ⟨_, heq, -⟩ := hfits
  have hterminal : t.toTerminal = ⟨.integer, literal⟩ := (List.cons.inj heq).1
  exact ⟨congrArg Terminal.kind hterminal, congrArg Terminal.literal hterminal⟩

/-- The error is about the token of the stream of the source that stands behind `index` other
ones. -/
def SyntaxError.PointsAt (source : String) (index : Nat) (e : SyntaxError) : Prop :=
  ∃ t, (stream source)[index]? = some t ∧ e.About t

section
variable {source : String}

theorem SyntaxError.PointsAt.unique {e : SyntaxError} {i j : Nat} (hi : e.PointsAt source i)
    (hj : e.PointsAt source j) : i = j := by
  obtain ⟨t, ht, habout⟩ := hi
  obtain ⟨u, hu, habout'⟩ := hj
  exact eq_of_span_eq ht hu (habout.span_eq.symm.trans habout'.span_eq)

/-- Whether a complaint fits depends on the terminal ahead; the mark of the end stands for none. -/
theorem SyntaxError.Cause.Fits.head {us : List Terminal} {c : SyntaxError.Cause} (h : c.Fits us) :
    c.Fits [us.headD ⟨.endOfInput, ""⟩] := by
  cases c with
  | unexpected expected found => cases us <;> exact h
  | noExpression kind => cases us <;> exact h
  | integerRange literal =>
    obtain ⟨rest, rfl, hlarge⟩ := h
    exact ⟨[], rfl, hlarge⟩

/-- The index of the token that a mistake is about: as many tokens as it says are left from there
on. -/
def Mistake.index (source : String) (m : Mistake) : Nat := (scan source).length - m.left

theorem Mistake.left_le {m : Mistake}
    (hm : m ∈ (Program.ofTerminals (terminals source.toList)).mistakes) :
    m.left ≤ (scan source).length := by
  obtain ⟨us, hus, habout⟩ := Program.about_mistakes hm
  rw [habout.left_eq]
  exact Nat.le_trans hus.length_le (Nat.le_of_eq (List.length_map _))

/-- The mark of the end stands behind all other tokens. -/
theorem stream_getElem? {k : Nat} (hk : k ≤ (scan source).length) :
    (stream source)[k]? = some ((scan source)[k]?.getD (endOfInput source.utf8ByteSize)) := by
  rw [stream, List.getElem?_append]
  split
  · next hlt => rw [List.getElem?_eq_getElem hlt, Option.getD_some]
  · next hge =>
    have hk : k = (scan source).length := by omega
    rw [hk, Nat.sub_self, List.getElem?_eq_none (Nat.le_refl _)]
    rfl

/-- A mistake is located at the token of the stream from which on as many are left. -/
theorem Mistake.pointsAt {m : Mistake}
    (hm : m ∈ (Program.ofTerminals (terminals source.toList)).mistakes) :
    (m.locate (scan source).toArray source.utf8ByteSize).PointsAt source (m.index source) := by
  obtain ⟨us, ⟨front, hfront⟩, habout⟩ := Program.about_mistakes hm
  have hmap : front ++ us = (scan source).map Token.toTerminal := hfront
  have hlength := congrArg List.length hmap
  rw [List.length_append, List.length_map] at hlength
  have hindex : m.index source = front.length := by
    have hleft := habout.left_eq
    unfold Mistake.index
    omega
  have hhead : us.head? = (scan source)[m.index source]?.map Token.toTerminal := by
    rw [← List.getElem?_map, ← hmap, hindex, List.getElem?_append_right (Nat.le_refl _),
      Nat.sub_self, List.head?_eq_getElem?]
  refine ⟨_, stream_getElem? (Nat.sub_le _ _), ?_, ?_⟩
  · show spanOfLeft _ _ _ = _
    rw [spanOfLeft_toArray, Mistake.index]
    cases (scan source)[(scan source).length - m.left]? <;> rfl
  · have hfits := habout.fits.head
    rw [List.headD_eq_head?_getD, hhead] at hfits
    cases h : (scan source)[m.index source]? with
    | none =>
      rw [h] at hfits
      exact hfits
    | some t =>
      rw [h] at hfits
      exact hfits

end

/-! ## All errors of a source -/

/-- What relates two mistakes of which the first precedes the second relates their errors. -/
theorem pairwise_errors {source : String} {R : SyntaxError → SyntaxError → Prop}
    (h : ∀ a b : Mistake,
      a ∈ (Program.ofTerminals (terminals source.toList)).mistakes →
      b ∈ (Program.ofTerminals (terminals source.toList)).mistakes → a.Precedes b →
      R (a.locate (scan source).toArray source.utf8ByteSize)
        (b.locate (scan source).toArray source.utf8ByteSize)) :
    (parse source).errors.Pairwise R := by
  rw [errors_parse]
  exact List.pairwise_map.2 ((Program.mistakes_ordered _).imp_of_mem fun ha hb => h _ _ ha hb)

theorem errors_sorted (source : String) :
    (parse source).errors.Pairwise fun e f => e.span.start ≤ f.span.start := by
  refine pairwise_errors fun a b ha hb hab => ?_
  obtain ⟨t, ht, habout⟩ := Mistake.pointsAt ha
  obtain ⟨u, hu, habout'⟩ := Mistake.pointsAt hb
  rw [habout.span_eq, habout'.span_eq]
  exact start_le_of_le ht hu (Nat.sub_le_sub_left hab.left_le _)

theorem exists_pointsAt {source : String} {e : SyntaxError} (he : e ∈ (parse source).errors) :
    ∃ k, e.PointsAt source k := by
  rw [errors_parse] at he
  obtain ⟨m, hm, rfl⟩ := List.mem_map.1 he
  exact ⟨_, Mistake.pointsAt hm⟩

/-- Two errors of one class have one span at the end of the source only. -/
theorem errors_distinct (source : String) :
    (parse source).errors.Pairwise fun e f => e.cause.isUnexpected = f.cause.isUnexpected →
      ∀ t ∈ stream source, e.span = t.span → f.span = t.span → t.kind = .endOfInput := by
  refine pairwise_errors fun a b ha hb hab hclass t ht hat hbt => ?_
  obtain ⟨k, hk⟩ := List.getElem?_of_mem ht
  obtain ⟨u, hu, habout⟩ := Mistake.pointsAt ha
  obtain ⟨v, hv, habout'⟩ := Mistake.pointsAt hb
  have hak : a.index source = k := eq_of_span_eq hu hk (habout.span_eq.symm.trans hat)
  have hbk : b.index source = k := eq_of_span_eq hv hk (habout'.span_eq.symm.trans hbt)
  have hale := Mistake.left_le ha
  have hble := Mistake.left_le hb
  unfold Mistake.index at hak hbk
  have hzero := hab.distinct hclass (by omega)
  -- No token is left from there on, so it is the mark of the end.
  obtain rfl : (scan source).length = k := by omega
  rw [stream_getElem? (Nat.le_refl _), List.getElem?_eq_none (Nat.le_refl _)] at hk
  obtain rfl := Option.some.inj hk
  rfl

/-- Errors come in the order of their tokens; each has the span of one token of the stream, which
gives cause for it, and so that of a piece of the source, in which an integer is written as it is
reported; and no token but the mark of the end is one in place of which another one was expected
twice, or refused twice. -/
theorem errors_located (source : String) :
    (parse source).errors.Pairwise (fun e f => e.span.start ≤ f.span.start) ∧
    (∀ e ∈ (parse source).errors,
      (∃ t ∈ stream source, e.About t ∧ ∀ u ∈ stream source, e.span = u.span → u = t) ∧
      ∃ front text back, source.toList = front ++ (text ++ back) ∧
        e.span.start = byteLength front ∧ e.span.stop = byteLength front + byteLength text ∧
        ∀ literal, e.cause = .integerRange literal → literal.toList = text) ∧
    (parse source).errors.Pairwise (fun e f =>
      e.cause.isUnexpected = f.cause.isUnexpected →
        ∀ t ∈ stream source, e.span = t.span → f.span = t.span → t.kind = .endOfInput) := by
  refine ⟨errors_sorted source, fun e he => ?_, errors_distinct source⟩
  obtain ⟨k, t, ht, habout⟩ := exists_pointsAt he
  have hmem := List.mem_of_getElem? ht
  refine ⟨⟨t, hmem, habout, fun u hu hspan => ?_⟩, ?_⟩
  · obtain ⟨j, hj⟩ := List.getElem?_of_mem hu
    obtain rfl := eq_of_span_eq ht hj (habout.span_eq.symm.trans hspan)
    exact Option.some.inj (hj.symm.trans ht)
  · obtain ⟨front, text, back, hsource, hstart, hstop, hliteral⟩ :=
      exists_piece_of_mem_stream hmem
    refine ⟨front, text, back, hsource, habout.span_eq ▸ hstart, habout.span_eq ▸ hstop, ?_⟩
    intro literal hc
    obtain ⟨hkind, rfl⟩ := habout.integer hc
    exact hliteral hkind

/-! ## Layout -/

/-- The token that an error points at is the one whose span it has. -/
theorem SyntaxError.pointsAt_iff {source : String} {e : SyntaxError} {t : Token} {k : Nat}
    (he : e ∈ (parse source).errors) (ht : (stream source)[k]? = some t) (hspan : e.span = t.span)
    (j : Nat) : e.PointsAt source j ↔ j = k := by
  obtain ⟨i, hi⟩ := exists_pointsAt he
  obtain rfl : i = k := by
    obtain ⟨u, hu, habout⟩ := hi
    exact eq_of_span_eq hu ht (habout.span_eq.symm.trans hspan)
  constructor
  · exact fun hj => hj.unique hi
  · rintro rfl
    exact hi

/-- Sources whose tokens have the same kinds and the same literals are read alike: the programs are
the same, and so are the errors, but for the spans, which are those of the tokens with the same
index. -/
theorem parse_congr_terminals (s t : String)
    (h : (stream s).map Token.toTerminal = (stream t).map Token.toTerminal) :
    (parse s).program = (parse t).program ∧
      (parse s).errors.length = (parse t).errors.length ∧
      ∀ (i : Nat) (e f : SyntaxError), (parse s).errors[i]? = some e →
        (parse t).errors[i]? = some f →
        e.cause = f.cause ∧ e.message = f.message ∧
          ∃ k, (∀ j, e.PointsAt s j ↔ j = k) ∧ ∀ j, f.PointsAt t j ↔ j = k := by
  have hterminals : (scan s).map toTerminal = (scan t).map toTerminal := by
    rw [stream, stream, List.map_append, List.map_append] at h
    exact List.append_inj_left' h rfl
  obtain ⟨hprogram, herrors⟩ := parse_lockstep hterminals
  refine ⟨hprogram, herrors.length_eq, fun i e f he hf => ?_⟩
  obtain ⟨hi, rfl⟩ := List.getElem?_eq_some_iff.1 he
  obtain ⟨hi', rfl⟩ := List.getElem?_eq_some_iff.1 hf
  obtain ⟨hcause, k, u, v, hu, hv, huspan, hvspan⟩ := herrors.get hi hi'
  refine ⟨hcause, congrArg SyntaxError.Cause.message hcause, k, ?_, ?_⟩
  · exact SyntaxError.pointsAt_iff (List.getElem_mem hi) hu huspan
  · exact SyntaxError.pointsAt_iff (List.getElem_mem hi') hv hvspan

/-- An error in a block, and two at the end: with other blanks, with another spelling of what is in
the string, and without its last quote. -/
theorem parse_congr_terminals_unclosed :
    (stream "if (a) \x7b let 5; f(\"\\b\\n\"").map Token.toTerminal =
      (stream "if(a)\n\t\x7blet 5 ;f( \"b\n").map Token.toTerminal ∧
    (parse "if (a) \x7b let 5; f(\"\\b\\n\"").program =
      (parse "if(a)\n\t\x7blet 5 ;f( \"b\n").program ∧
    (parse "if (a) \x7b let 5; f(\"\\b\\n\"").errors.length =
      (parse "if(a)\n\t\x7blet 5 ;f( \"b\n").errors.length ∧
    ∀ (i : Nat) (e f : SyntaxError),
      (parse "if (a) \x7b let 5; f(\"\\b\\n\"").errors[i]? = some e →
      (parse "if(a)\n\t\x7blet 5 ;f( \"b\n").errors[i]? = some f →
        e.cause = f.cause ∧ e.message = f.message ∧
          ∃ k, (∀ j, e.PointsAt "if (a) \x7b let 5; f(\"\\b\\n\"" j ↔ j = k) ∧
            ∀ j, f.PointsAt "if(a)\n\t\x7blet 5 ;f( \"b\n" j ↔ j = k := by
  have h : (stream "if (a) \x7b let 5; f(\"\\b\\n\"").map Token.toTerminal =
      (stream "if(a)\n\t\x7blet 5 ;f( \"b\n").map Token.toTerminal := by decide +kernel
  exact ⟨h, parse_congr_terminals _ _ h⟩

end MonkeyLang
