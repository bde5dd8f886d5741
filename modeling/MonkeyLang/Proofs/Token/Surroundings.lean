import Mathlib.Data.List.TakeWhile
import MonkeyLang.Proofs.Syntax.Seam
import MonkeyLang.Proofs.Text.ByteOrder
import MonkeyLang.Proofs.Text.Quoted
import MonkeyLang.Proofs.Token.Tiling
import MonkeyLang.Syntax.Render

/-!
# Tokens and what stands around them

A blank ends every lexeme but a string literal that is not closed, so texts with a blank between
them are scanned each by itself (`stream_append_blank`). A string literal that is closed ends with
the quote that closes it, and needs no blank behind it: written in front of any text it is a token
by itself, and the tokens of the text are as they were (`stream_quoted`).
-/

namespace MonkeyLang

namespace Quoted

/-- Behind the quote that opens a literal there is one that closes it. -/
def Closes (text : List Char) : Prop :=
  ∃ inner back, Guarded inner ∧ text = inner ++ '"' :: back

/-- A literal ends at the first quote that is not escaped. -/
theorem Guarded.split_append {inner : List Char} (h : Guarded inner) (back : List Char) :
    split (inner ++ '"' :: back) = (inner ++ ['"'], back) := by
  induction h with
  | nil => rfl
  | escape c _ ih => simp only [List.cons_append, split, ih]
  | plain hq hb _ ih => rw [List.cons_append, split_cons _ hq hb, ih, List.cons_append]

theorem Closes.split_append {text : List Char} (h : Closes text) (b : List Char) :
    split (text ++ b) = ((split text).1, (split text).2 ++ b) := by
  obtain ⟨inner, back, hinner, rfl⟩ := h
  rw [List.append_assoc, List.cons_append, hinner.split_append, hinner.split_append]

end Quoted

/-- The token is a string literal of the source, and no quote closes it. -/
def Token.Unclosed (source : String) (t : Token) : Prop :=
  t.kind = .string ∧ ∃ front text, source.toList = front ++ '"' :: text ∧
    byteLength front = t.span.start ∧ ¬ Quoted.Closes text

/-! ## In front of a blank -/

namespace Lexeme

/-- A run of characters ends where the text behind it begins with another one. -/
theorem takeWhile_append_of_apart {p : Char → Bool} {b : List Char}
    (hb : ∀ c ∈ b.head?, p c = false) (text : List Char) :
    (text ++ b).takeWhile p = text.takeWhile p ∧
      (text ++ b).dropWhile p = text.dropWhile p ++ b := by
  by_cases h : text.dropWhile p = []
  · have hall := List.dropWhile_eq_nil_iff.1 h
    obtain ⟨htake, hdrop⟩ := Token.takeWhile_append_of_head hall hb
    rw [htake, hdrop, h, List.nil_append, List.takeWhile_eq_self_iff.2 hall]
    exact ⟨rfl, rfl⟩
  · exact takeWhile_append_of_dropWhile_ne_nil h b

/-- A lexeme does not go on behind a blank. -/
theorem read_append_of_blank {c : Char} {rest b : List Char}
    (hb : ∀ d ∈ b.head?, isBlank d = true)
    (hclosed : (read c rest).kind = .string → Quoted.Closes rest) :
    read c (rest ++ b) = { read c rest with rest := (read c rest).rest ++ b } := by
  have hrun : ∀ {p : Char → Bool}, (∀ {d}, p d = true → isBlank d = false) →
      ∀ d ∈ b.head?, p d = false := by
    intro p hp d hd
    refine Bool.eq_false_iff.2 fun h => ?_
    have := hb d hd
    rw [hp h] at this
    cases this
  rcases read_cases c with hl | hd | rfl | ⟨-, -, -, hsign⟩
  · obtain ⟨htake, hdrop⟩ := takeWhile_append_of_apart (hrun Token.isBlank_of_isLetter) rest
    rw [read_letter hl, read_letter hl, htake, hdrop]
  · obtain ⟨htake, hdrop⟩ := takeWhile_append_of_apart (hrun Token.isBlank_of_isDigit) rest
    rw [read_digit hd, read_digit hd, htake, hdrop]
  · rw [read_quote, read_quote, (hclosed rfl).split_append b]
  · rw [hsign, hsign]
    refine readSign_append_of_head fun _ hhead => ?_
    cases hb '=' hhead

/-- Only a quote begins a string literal. -/
theorem eq_of_read_string {c : Char} {rest : List Char} (h : (read c rest).kind = .string) :
    c = '"' := by
  rcases read_cases c with hl | hd | rfl | ⟨-, -, -, hsign⟩
  · rw [read_letter hl] at h
    exact absurd h (Kind.ofWord_ne rfl Kind.noConfusion _)
  · rw [read_digit hd] at h
    cases h
  · rfl
  · rw [hsign] at h
    exact absurd h (readSign_kind_ne c rest).2.2

end Lexeme

namespace Token

/-- In front of a blank a text ends as it is, unless it ends in a string literal that is not
closed. -/
theorem seam_of_blank {a : String} {b : List Char} (hb : ∀ c ∈ b.head?, isBlank c = true)
    (h : ∀ t ∈ (scan a).getLast?, ¬ t.Unclosed a) : Seam b a.toList := by
  refine seam_of_last (List.nil_append a.toList).symm b fun t ht front c rest ha htoken => ?_
  refine Lexeme.read_append_of_blank hb fun hstring => ?_
  obtain rfl := Lexeme.eq_of_read_string hstring
  by_contra hopen
  exact h t ht ⟨htoken ▸ hstring, front, rest, ha, by rw [htoken]; rfl, hopen⟩

/-- A text whose lexemes end in front of the next one, blanks, and the next one: the tokens are
those of both texts, the second ones further back by what is in front of them. -/
theorem stream_append {a w : String} (b : String) (hseam : Seam (w ++ b).toList a.toList)
    (hw : ∀ c ∈ w.toList, isBlank c = true) :
    stream (a ++ w ++ b) = (stream a).dropLast ++ (stream b).map (shift (a ++ w).utf8ByteSize) := by
  have hgap : w.toList.dropWhile isBlank = [] := List.dropWhile_eq_nil_iff.2 hw
  have hscan : scan (a ++ w ++ b) = scan a ++ (scan b).map (shift (a ++ w).utf8ByteSize) := by
    have hbytes : 0 + byteLength a.toList + byteLength w.toList = 0 + (a ++ w).utf8ByteSize := by
      rw [byteLength_toList, byteLength_toList, String.utf8ByteSize_append, Nat.add_assoc]
    rw [scan, String.append_assoc, String.toList_append, scanFrom_append hseam,
      String.toList_append, scanFrom_append (.blank hgap), scanFrom_eq_nil (next?_of_blank _ hgap),
      List.nil_append, hbytes, scanFrom_shift]
    rfl
  rw [stream, stream, stream, hscan, List.dropLast_concat, List.map_append, List.append_assoc,
    List.map_singleton, shift_endOfInput, Nat.add_comm, ← String.utf8ByteSize_append]

end Token

/-- The tokens of a text, blanks and a text behind them are those of the first text, without the
mark of its end, and those of the second one, as many bytes further back as there are in front of
it. Blanks there must be, and no string literal that is not closed, unless the first text is empty
or ends with a semicolon. -/
theorem stream_append_blank (a w b : String) (hw : ∀ c ∈ w.toList, isBlank c = true)
    (h : w ≠ "" ∧ (∀ t ∈ (Token.scan a).getLast?, ¬ t.Unclosed a) ∨
      w = "" ∧ (a = "" ∨ lastTokenKind a = some .semicolon)) :
    Token.stream (a ++ w ++ b) =
      (Token.stream a).dropLast ++ (Token.stream b).map (Token.shift (a ++ w).utf8ByteSize) := by
  refine Token.stream_append b ?_ hw
  rcases h with ⟨hne, hclosed⟩ | ⟨-, rfl | hlast⟩
  · refine Token.seam_of_blank (fun c hc => hw c ?_) hclosed
    obtain ⟨d, gap, hgap⟩ := List.exists_cons_of_ne_nil (mt String.toList_eq_nil_iff.1 hne)
    rw [String.toList_append, hgap, List.cons_append] at hc
    cases hc
    exact hgap ▸ List.mem_cons_self
  · exact .blank rfl
  · refine Token.seam_of_semicolon _ fun t ht => ?_
    have hkind := congrArg (Option.map (·.kind)) (Option.mem_def.1 ht)
    exact Option.some.inj (hkind.symm.trans hlast)

/-- Behind a string literal with an escaped quote in front of the one that closes it, and right
behind a semicolon, a literal that is not closed. -/
theorem stream_append_blank_quotes :
    Token.stream ("\"é\\\"\"" ++ "\t" ++ "\"open") =
        (Token.stream "\"é\\\"\"").dropLast ++ (Token.stream "\"open").map (Token.shift 7) ∧
      Token.stream ("let x;" ++ "" ++ "\"open") =
        (Token.stream "let x;").dropLast ++ (Token.stream "\"open").map (Token.shift 6) := by
  have hscan : Token.scan "\"é\\\"\"" = [⟨⟨.string, "é\""⟩, ⟨0, 6⟩⟩] := by decide +kernel
  have hclosed : ∀ t ∈ (Token.scan "\"é\\\"\"").getLast?, ¬ t.Unclosed "\"é\\\"\"" := by
    rw [hscan]
    rintro _ ⟨⟩ ⟨-, front, text, hsource, hstart, hopen⟩
    have hlength := length_le_byteLength front
    rw [hstart] at hlength
    obtain rfl := List.length_eq_zero_iff.1 (Nat.le_zero.1 hlength)
    obtain ⟨-, rfl⟩ := List.cons.inj hsource
    exact hopen ⟨['é', '\\', '"'], [], .plain (by decide) (by decide) (.escape '"' .nil), rfl⟩
  have hlast : lastTokenKind "let x;" = some .semicolon := by decide +kernel
  exact ⟨stream_append_blank _ "\t" _ (by simp [isBlank]) (.inl ⟨by decide, hclosed⟩),
    stream_append_blank _ "" _ (by simp) (.inr ⟨rfl, .inr hlast⟩)⟩

/-! ## Behind a string literal as it is written -/

section
variable (v r : String)

theorem toList_render_append :
    ((Expr.string v).render ++ r).toList = Quoted.encode v.toList ++ r.toList := by
  rw [Expr.render, String.toList_append, String.toList_ofList]

theorem utf8ByteSize_render :
    (Expr.string v).render.utf8ByteSize = byteLength (Quoted.encode v.toList) := by
  rw [Expr.render, byteLength_ofList]

theorem Token.scan_quoted :
    scan ((Expr.string v).render ++ r) =
      ⟨⟨.string, v⟩, ⟨0, (Expr.string v).render.utf8ByteSize⟩⟩ ::
        (scan r).map (shift (Expr.string v).render.utf8ByteSize) := by
  rw [scan, toList_render_append, scanFrom_of_next? (next?_quoted 0 v.toList r.toList),
    String.ofList_toList, ← utf8ByteSize_render, scanFrom_shift, Nat.zero_add]
  rfl

/-- Among the bytes, too, the first quote that is not protected is the last of the literal. -/
theorem Quoted.closing_quoted :
    closing false (utf8Bytes ((Expr.string v).render ++ r)).tail + 1 =
      (Expr.string v).render.utf8ByteSize := by
  have hbytes : utf8Bytes ((Expr.string v).render ++ r) = 0x22 ::
      (v.toList.flatMap escape ++ '"' :: r.toList).flatMap String.utf8EncodeChar := by
    rw [utf8Bytes_eq, toList_render_append, encode, List.cons_append, List.append_assoc,
      List.flatMap_cons]
    rfl
  rw [hbytes, List.tail_cons, closing_utf8Encode, split_encode, utf8ByteSize_render, encode,
    byteLength_cons, Nat.add_comm]
  rfl

end

/-- A string literal as it is written, with any text behind it: its token has the contents and the
place of the literal, and the tokens behind it are those of the text, further back by the bytes of
the literal. The literal ends there for a scan of the bytes too. -/
theorem stream_quoted (v r : String) :
    Token.stream ((Expr.string v).render ++ r) =
        ⟨⟨.string, v⟩, ⟨0, (Expr.string v).render.utf8ByteSize⟩⟩ ::
          (Token.stream r).map (Token.shift (Expr.string v).render.utf8ByteSize) ∧
      Quoted.closing false (utf8Bytes ((Expr.string v).render ++ r)).tail + 1 =
        (Expr.string v).render.utf8ByteSize := by
  refine ⟨?_, Quoted.closing_quoted v r⟩
  rw [Token.stream, Token.stream, Token.scan_quoted, List.map_append, List.map_singleton,
    Token.shift_endOfInput, String.utf8ByteSize_append, Nat.add_comm, List.cons_append]

end MonkeyLang
