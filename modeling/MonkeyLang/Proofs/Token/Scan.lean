import MonkeyLang.Token.Scan

/-!
# Scanning piece by piece

What a lexeme is made of is told by the character that it begins with (`Lexeme.read_cases`). Where a
text begins does not matter for its tokens but for their spans (`scanFrom_shift`), so what the
grammar sees of a text, its `terminals`, depends on the text alone. A blank in front adds nothing to
them; a lexeme in front adds the terminal that it is, and `terminals_word`, `terminals_number`,
`terminals_quoted` and `terminals_sign` say which one, and where it ends. What is carried from place
to place of a source, lexeme by lexeme, is shown by `scan_induction`.
-/

namespace MonkeyLang

/-- The words that are not names. -/
def keywords : List String := ["fn", "let", "true", "false", "if", "else", "return"]

namespace Kind

theorem isKeyword_ofWord {word : List Char} (h : String.ofList word ∈ keywords) :
    (ofWord word).isKeyword = true := by
  simp only [keywords, List.mem_cons, List.not_mem_nil, or_false] at h
  rcases h with h | h | h | h | h | h | h <;>
    (rw [← String.toList_ofList (l := word), h]; rfl)

theorem ofWord_of_not_keyword {word : List Char} (h : String.ofList word ∉ keywords) :
    ofWord word = .identifier := by
  unfold ofWord
  split <;> first | rfl | exact absurd (by decide) h

/-- A word is an identifier exactly if it is no keyword. -/
theorem ofWord_eq_identifier_iff {word : List Char} :
    ofWord word = .identifier ↔ String.ofList word ∉ keywords := by
  refine ⟨fun h hk => ?_, ofWord_of_not_keyword⟩
  have := isKeyword_ofWord hk
  rw [h] at this
  cases this

theorem ofWord_ne {k : Kind} (hk : k.isKeyword = false) (hi : k ≠ .identifier)
    (word : List Char) : ofWord word ≠ k := by
  rintro rfl
  by_cases h : String.ofList word ∈ keywords
  · rw [isKeyword_ofWord h] at hk
    cases hk
  · exact hi (ofWord_of_not_keyword h)

end Kind

/-- No sign is a name, a number or a string. -/
theorem Kind.ofSign_ne (c : Char) :
    ofSign c ≠ .identifier ∧ ofSign c ≠ .integer ∧ ofSign c ≠ .string := by
  unfold ofSign
  split <;> decide

theorem Kind.ofSign_ne_endOfInput (c : Char) : ofSign c ≠ .endOfInput := by
  unfold ofSign
  split <;> decide

theorem Lexeme.readSign_kind_ne (c : Char) (rest : List Char) :
    (readSign c rest).kind ≠ .identifier ∧ (readSign c rest).kind ≠ .integer ∧
      (readSign c rest).kind ≠ .string := by
  unfold readSign
  split
  · simp
  · simp
  · exact Kind.ofSign_ne c

namespace Token

theorem le_toNat_of_isLetter {c : Char} (h : isLetter c = true) : 65 ≤ c.toNat := by
  have h' : (decide (65 ≤ c.val ∧ c.val ≤ 90) || (97 ≤ c.val && c.val ≤ 122) || c == '_') =
      true := h
  simp only [Bool.or_eq_true, Bool.and_eq_true, decide_eq_true_eq, beq_iff_eq,
    UInt32.le_iff_toNat_le] at h'
  rcases h' with (⟨h, -⟩ | ⟨h, -⟩) | rfl
  · exact h
  · exact Nat.le_trans (by decide) h
  · decide

theorem toNat_le_of_isDigit {c : Char} (h : c.isDigit = true) : c.toNat ≤ 57 := by
  have h' : (48 ≤ c.val && c.val ≤ 57) = true := h
  simp only [Bool.and_eq_true, decide_eq_true_eq, UInt32.le_iff_toNat_le] at h'
  exact h'.2

/-- No digit is a letter. -/
theorem isLetter_of_isDigit {c : Char} (h : c.isDigit = true) : isLetter c = false := by
  rcases hl : isLetter c with _ | _
  · rfl
  · have := le_toNat_of_isLetter hl
    have := toNat_le_of_isDigit h
    omega

end Token

/-! ## What a lexeme begins with -/

namespace Lexeme

/-- What begins with a letter is a word. -/
theorem read_letter {c : Char} (h : isLetter c = true) (rest : List Char) :
    read c rest = ⟨.ofWord (c :: rest.takeWhile isLetter), c :: rest.takeWhile isLetter,
      rest.dropWhile isLetter⟩ := if_pos h

/-- What begins with a digit is a number. -/
theorem read_digit {c : Char} (h : c.isDigit = true) (rest : List Char) :
    read c rest = ⟨.integer, c :: rest.takeWhile Char.isDigit, rest.dropWhile Char.isDigit⟩ := by
  simp [read, Token.isLetter_of_isDigit h, h]

/-- What begins with a quote is a string literal. -/
theorem read_quote (rest : List Char) :
    read '"' rest = ⟨.string, '"' :: (Quoted.split rest).1, (Quoted.split rest).2⟩ := rfl

/-- What begins with anything else is read as a sign. -/
theorem read_cases (c : Char) : isLetter c = true ∨ c.isDigit = true ∨ c = '"' ∨
    isLetter c = false ∧ c.isDigit = false ∧ c ≠ '"' ∧ ∀ rest, read c rest = readSign c rest := by
  rcases hl : isLetter c with _ | _
  · rcases hd : c.isDigit with _ | _
    · by_cases hq : c = '"'
      · exact .inr (.inr (.inl hq))
      · exact .inr (.inr (.inr ⟨rfl, rfl, hq, fun rest => by simp [read, hl, hd, hq]⟩))
    · exact .inr (.inl rfl)
  · exact .inl rfl

/-- Only a word is an identifier. -/
theorem read_of_identifier {c : Char} {rest : List Char} (h : (read c rest).kind = .identifier) :
    isLetter c = true ∧
      read c rest = ⟨.identifier, c :: rest.takeWhile isLetter, rest.dropWhile isLetter⟩ ∧
      Kind.ofWord (c :: rest.takeWhile isLetter) = .identifier := by
  rcases read_cases c with hl | hd | rfl | ⟨-, -, -, hsign⟩
  · rw [read_letter hl] at h ⊢
    have hword : Kind.ofWord (c :: rest.takeWhile isLetter) = .identifier := h
    exact ⟨hl, by rw [hword], hword⟩
  · rw [read_digit hd] at h
    cases h
  · cases h
  · rw [hsign] at h
    exact absurd h (readSign_kind_ne c rest).1

/-- No lexeme is the mark of the end. -/
theorem read_kind_ne_endOfInput (c : Char) (rest : List Char) :
    (read c rest).kind ≠ .endOfInput := by
  rcases read_cases c with hl | hd | rfl | ⟨-, -, -, hsign⟩
  · rw [read_letter hl]
    exact Kind.ofWord_ne rfl (by decide) _
  · rw [read_digit hd]
    exact Kind.noConfusion
  · exact Kind.noConfusion
  · rw [hsign]
    unfold readSign
    split
    · exact Kind.noConfusion
    · exact Kind.noConfusion
    · exact Kind.ofSign_ne_endOfInput c

/-- What begins with a sign is one. -/
theorem read_sign {c : Char} (rest : List Char) (h : Kind.ofSign c ≠ .illegal) :
    isBlank c = false ∧ read c rest = readSign c rest := by
  unfold Kind.ofSign at h
  split at h <;> first | exact ⟨rfl, rfl⟩ | exact absurd rfl h

/-- A sign is a single character unless it makes another one with the character behind it. -/
theorem readSign_of_single {c : Char} {rest : List Char}
    (h : c = '=' ∨ c = '!' → rest.head? ≠ some '=') : readSign c rest = ⟨.ofSign c, [c], rest⟩ := by
  unfold readSign
  split
  · exact absurd rfl (h (.inl rfl))
  · exact absurd rfl (h (.inr rfl))
  · rfl

theorem literal_of_ne {l : Lexeme} (h : l.kind ≠ .string) : l.literal = .ofList l.text := by
  rw [literal, if_neg h]

end Lexeme

namespace Token

/-! ## Offsets -/

theorem next?_of_blank {text : List Char} (offset : Nat) (h : text.dropWhile isBlank = []) :
    next? offset text = none := by
  unfold next?
  rw [h]

theorem next?_of_lexeme {text rest : List Char} {c : Char} (offset : Nat)
    (h : text.dropWhile isBlank = c :: rest) :
    next? offset text =
      some ((Lexeme.read c rest).token (offset + byteLength (text.takeWhile isBlank)),
        (Lexeme.read c rest).rest) := by
  unfold next?
  rw [h]

/-- A scan goes through a source lexeme by lexeme: what holds where only blanks are left, and holds
in front of a lexeme if it does behind it, holds wherever the source is parted in two. -/
@[elab_as_elim]
theorem scan_induction {source : List Char} {motive : List Char → List Char → Prop}
    (blank : ∀ front text, source = front ++ text → text.dropWhile isBlank = [] →
      scanFrom (byteLength front) text = [] → motive front text)
    (lexeme : ∀ front text c rest, source = front ++ text.takeWhile isBlank ++ c :: rest →
      text.dropWhile isBlank = c :: rest →
      scanFrom (byteLength front) text =
        (Lexeme.read c rest).token (byteLength (front ++ text.takeWhile isBlank)) ::
          scanFrom (byteLength (front ++ text.takeWhile isBlank ++ (Lexeme.read c rest).text))
            (Lexeme.read c rest).rest →
      motive (front ++ text.takeWhile isBlank ++ (Lexeme.read c rest).text)
        (Lexeme.read c rest).rest →
      motive front text)
    (front text : List Char) (h : source = front ++ text) : motive front text := by
  rcases hd : text.dropWhile isBlank with _ | ⟨c, rest⟩
  · exact blank front text h hd (scanFrom_eq_nil (next?_of_blank _ hd))
  · have hnext := next?_of_lexeme (byteLength front) hd
    have hshorter := next?_shorter hnext
    have hhere : source = front ++ text.takeWhile isBlank ++ c :: rest := by
      rw [h, List.append_assoc, ← hd, List.takeWhile_append_dropWhile]
    have hbehind : source = front ++ text.takeWhile isBlank ++ (Lexeme.read c rest).text ++
        (Lexeme.read c rest).rest := by
      rw [hhere, List.append_assoc _ (Lexeme.read c rest).text, Lexeme.read_append]
    refine lexeme front text c rest hhere hd ?_ (scan_induction blank lexeme _ _ hbehind)
    rw [scanFrom_of_next? hnext, byteLength_append _ (Lexeme.read c rest).text, byteLength_append]
    rfl
termination_by text.length

theorem token_shift (l : Lexeme) (offset bytes : Nat) :
    (l.token offset).shift bytes = l.token (offset + bytes) := by
  simp only [Lexeme.token, shift, Span.shift, Nat.add_right_comm]

/-- In a text that begins further back all tokens stand further back. -/
theorem scanFrom_shift (offset bytes : Nat) (text : List Char) :
    scanFrom (offset + bytes) text = (scanFrom offset text).map (shift bytes) := by
  rcases h : text.dropWhile isBlank with _ | ⟨c, rest⟩
  · rw [scanFrom_eq_nil (next?_of_blank _ h), scanFrom_eq_nil (next?_of_blank _ h), List.map_nil]
  · have hnext := next?_of_lexeme offset h
    have := next?_shorter hnext
    rw [scanFrom_of_next? (next?_of_lexeme _ h), scanFrom_of_next? hnext, List.map_cons,
      token_shift, Nat.add_right_comm offset, ← scanFrom_shift]
    simp only [Lexeme.token, Nat.add_right_comm]
termination_by text.length

/-- What the grammar sees of a text. -/
def terminals (text : List Char) : List Terminal := (scanFrom 0 text).map toTerminal

/-- The terminals do not depend on where the text begins. -/
theorem map_toTerminal_scanFrom (offset : Nat) (text : List Char) :
    (scanFrom offset text).map toTerminal = terminals text := by
  have h := scanFrom_shift 0 offset text
  rw [Nat.zero_add] at h
  rw [h, List.map_map]
  rfl

/-! ## The head of a text -/

@[simp] theorem terminals_nil : terminals [] = [] := by
  rw [terminals, scanFrom_nil, List.map_nil]

theorem terminals_of_lexeme {text rest : List Char} {c : Char}
    (h : text.dropWhile isBlank = c :: rest) :
    terminals text =
      ⟨(Lexeme.read c rest).kind, (Lexeme.read c rest).literal⟩ ::
        terminals (Lexeme.read c rest).rest := by
  rw [terminals, scanFrom_of_next? (next?_of_lexeme 0 h), List.map_cons, map_toTerminal_scanFrom]
  rfl

/-- Every terminal of a text is a lexeme in it. -/
theorem exists_read_of_mem {text : List Char} {t : Terminal} (h : t ∈ terminals text) :
    ∃ c rest, t = ⟨(Lexeme.read c rest).kind, (Lexeme.read c rest).literal⟩ := by
  rcases hd : text.dropWhile isBlank with _ | ⟨c, rest⟩
  · rw [terminals, scanFrom_eq_nil (next?_of_blank 0 hd)] at h
    cases h
  · have := next?_shorter (next?_of_lexeme 0 hd)
    rw [terminals_of_lexeme hd, List.mem_cons] at h
    rcases h with rfl | h
    · exact ⟨c, rest, rfl⟩
    · exact exists_read_of_mem h
termination_by text.length

/-- No token of a text is the mark of the end. -/
theorem kind_ne_endOfInput_of_mem {offset : Nat} {text : List Char} {t : Token}
    (h : t ∈ scanFrom offset text) : t.kind ≠ .endOfInput := by
  have hmem := List.mem_map_of_mem (f := toTerminal) h
  rw [map_toTerminal_scanFrom] at hmem
  obtain ⟨c, rest, heq⟩ := exists_read_of_mem hmem
  have hkind : t.kind = (Lexeme.read c rest).kind := congrArg Terminal.kind heq
  rw [hkind]
  exact Lexeme.read_kind_ne_endOfInput c rest

/-- Blanks in front of a text are skipped. -/
theorem terminals_blank {c : Char} (h : isBlank c = true) (text : List Char) :
    terminals (c :: text) = terminals text := by
  have hd : (c :: text).dropWhile isBlank = text.dropWhile isBlank := by simp [h]
  rcases ht : text.dropWhile isBlank with _ | ⟨d, rest⟩
  · rw [terminals, terminals, scanFrom_eq_nil (next?_of_blank 0 ht),
      scanFrom_eq_nil (next?_of_blank 0 (hd.trans ht))]
  · rw [terminals_of_lexeme ht, terminals_of_lexeme (hd.trans ht)]

@[simp] theorem terminals_space (text : List Char) : terminals (' ' :: text) = terminals text :=
  terminals_blank rfl text

/-- A lexeme in front of a text is its first terminal. -/
theorem terminals_read {c : Char} {text : List Char} (h : isBlank c = false) :
    terminals (c :: text) =
      ⟨(Lexeme.read c text).kind, (Lexeme.read c text).literal⟩ ::
        terminals (Lexeme.read c text).rest :=
  terminals_of_lexeme (List.dropWhile_cons_of_neg (by simp [h]))

/-- Neither a letter nor a digit stands at the head of a text, so that it does not go on with a
word or a number in front of it. -/
def Apart (rest : List Char) : Prop := ∀ c ∈ rest.head?, isLetter c = false ∧ c.isDigit = false

theorem apart_nil : Apart [] := by simp [Apart]

theorem apart_cons {c : Char} (rest : List Char) (hl : isLetter c = false)
    (hd : c.isDigit = false) : Apart (c :: rest) := by
  rintro _ ⟨⟩
  exact ⟨hl, hd⟩

/-- What holds of none of the blanks holds of no blank. -/
theorem isBlank_eq_false {p : Char → Bool} (hp : [' ', '\t', '\n', '\r'].any p = false) {c : Char}
    (h : p c = true) : isBlank c = false := by
  rcases hb : isBlank c with _ | _
  · rfl
  · simp only [isBlank, Bool.or_eq_true, beq_iff_eq] at hb
    rcases hb with ((rfl | rfl) | rfl) | rfl <;> simp [h] at hp

theorem isBlank_of_isLetter {c : Char} (h : isLetter c = true) : isBlank c = false :=
  isBlank_eq_false rfl h

theorem isBlank_of_isDigit {c : Char} (h : c.isDigit = true) : isBlank c = false :=
  isBlank_eq_false rfl h

theorem takeWhile_append_of_head {p : Char → Bool} {front rest : List Char}
    (hf : ∀ c ∈ front, p c = true) (hr : ∀ c ∈ rest.head?, p c = false) :
    (front ++ rest).takeWhile p = front ∧ (front ++ rest).dropWhile p = rest := by
  rw [List.takeWhile_append_of_pos hf, List.dropWhile_append_of_pos hf]
  cases rest with
  | nil => simp
  | cons c rest => simp [hr c rfl]

/-- A word in front of what cannot go on with it. -/
theorem terminals_word (word : List Char) {rest : List Char} (hne : word ≠ [])
    (hw : ∀ c ∈ word, isLetter c = true) (hr : Apart rest) :
    terminals (word ++ rest) = ⟨.ofWord word, .ofList word⟩ :: terminals rest := by
  obtain ⟨c, word, rfl⟩ := List.exists_cons_of_ne_nil hne
  have hc := hw c List.mem_cons_self
  have hword : ∀ d ∈ word, isLetter d = true := fun d hd => hw d (List.mem_cons_of_mem c hd)
  obtain ⟨htake, hdrop⟩ := takeWhile_append_of_head hword fun d hd => (hr d hd).1
  rw [List.cons_append, terminals_read (isBlank_of_isLetter hc)]
  have hread : Lexeme.read c (word ++ rest) = ⟨.ofWord (c :: word), c :: word, rest⟩ := by
    rw [Lexeme.read_letter hc, htake, hdrop]
  rw [hread, Lexeme.literal_of_ne (Kind.ofWord_ne rfl Kind.noConfusion _)]

/-- A number in front of what cannot go on with it. -/
theorem terminals_number {digits rest : List Char} (hne : digits ≠ [])
    (hd : ∀ c ∈ digits, c.isDigit = true) (hr : Apart rest) :
    terminals (digits ++ rest) = ⟨.integer, .ofList digits⟩ :: terminals rest := by
  obtain ⟨c, digits, rfl⟩ := List.exists_cons_of_ne_nil hne
  have hc := hd c List.mem_cons_self
  have hdigits : ∀ d ∈ digits, d.isDigit = true := fun d h => hd d (List.mem_cons_of_mem c h)
  obtain ⟨htake, hdrop⟩ := takeWhile_append_of_head hdigits fun d h => (hr d h).2
  rw [List.cons_append, terminals_read (isBlank_of_isDigit hc)]
  have hread : Lexeme.read c (digits ++ rest) = ⟨.integer, c :: digits, rest⟩ := by
    rw [Lexeme.read_digit hc, htake, hdrop]
  rw [hread, Lexeme.literal_of_ne Kind.noConfusion]

/-- A string literal as it is written, in front of any text: it is a token by itself. -/
theorem next?_quoted (offset : Nat) (contents rest : List Char) :
    next? offset (Quoted.encode contents ++ rest) =
      some (⟨⟨.string, .ofList contents⟩,
        ⟨offset, offset + byteLength (Quoted.encode contents)⟩⟩, rest) := by
  have hread : Lexeme.read '"' (contents.flatMap Quoted.escape ++ '"' :: rest) =
      ⟨.string, Quoted.encode contents, rest⟩ := by
    rw [Lexeme.read_quote, Quoted.split_encode]
    rfl
  have hdecode : Quoted.decode (contents.flatMap Quoted.escape ++ ['"']) = contents :=
    Quoted.decode_encode contents []
  have hdrop : (Quoted.encode contents ++ rest).dropWhile isBlank =
      '"' :: (contents.flatMap Quoted.escape ++ '"' :: rest) := by simp [Quoted.encode, isBlank]
  rw [next?_of_lexeme offset hdrop, hread]
  simp [Lexeme.token, Lexeme.literal, Quoted.encode, hdecode, isBlank]

theorem terminals_quoted (contents rest : List Char) :
    terminals (Quoted.encode contents ++ rest) = ⟨.string, .ofList contents⟩ :: terminals rest := by
  rw [terminals, scanFrom_of_next? (next?_quoted 0 contents rest), List.map_cons,
    map_toTerminal_scanFrom]

/-- A sign in front of a text with which it does not make another one. -/
theorem terminals_sign {c : Char} {rest : List Char} (hk : Kind.ofSign c ≠ .illegal)
    (hr : c = '=' ∨ c = '!' → rest.head? ≠ some '=') :
    terminals (c :: rest) = ⟨.ofSign c, .ofList [c]⟩ :: terminals rest := by
  obtain ⟨hb, hread⟩ := Lexeme.read_sign rest hk
  rw [terminals_read hb, hread, Lexeme.readSign_of_single hr,
    Lexeme.literal_of_ne (Kind.ofSign_ne c).2.2]

end Token

end MonkeyLang
