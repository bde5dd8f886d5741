import MonkeyLang.Proofs.Token.Scan

/-!
# The tokens of a source tile it

A source is its lexemes with blanks between them. `Lexeme.Exact` says for each kind what a lexeme is
made of and why it is not longer, `Token.Stands` that a token has the place, the kind and the
literal of such a lexeme, and `Tiling` that tokens stand one behind the other with nothing but
blanks around them. All that is said of a token stream as a whole follows from there by induction
(`stream_tiles`).
-/

namespace MonkeyLang

/-! ## What a lexeme is made of -/

/-- The words that are not names, each with its kind. -/
def reserved : List (String × Kind) :=
  [("fn", .function), ("let", .letWord), ("true", .trueWord), ("false", .falseWord),
    ("if", .ifWord), ("else", .elseWord), ("return", .returnWord)]

/-- The characters that signs begin with. -/
def signs : List Char :=
  ['=', '+', '-', '!', '*', '/', '<', '>', ',', ';', '(', ')', '{', '}']

namespace Kind

/-- The kind of a word: that of a reserved one, or an identifier. -/
def ofSpelling (word : String) : Kind := (reserved.lookup word).getD .identifier

/-- Is the kind a sign, which names itself? -/
def isSign : Kind → Bool
  | comma | semicolon | leftParen | rightParen | leftBrace | rightBrace => true
  | k => k.isOperator

end Kind

/-- The character is no blank, and no token but an illegal one begins with it. -/
structure BeginsNothing (c : Char) : Prop where
  not_blank : isBlank c = false
  not_letter : isLetter c = false
  not_digit : c.isDigit = false
  not_quote : c ≠ '"'
  not_sign : c ∉ signs

namespace Quoted

/-- Characters among which every quote is escaped by a backslash, and every backslash that is not
escaped itself has a character to escape. -/
inductive Guarded : List Char → Prop
  | nil : Guarded []
  | escape {rest} (c : Char) : Guarded rest → Guarded ('\\' :: c :: rest)
  | plain {c rest} : c ≠ '"' → c ≠ '\\' → Guarded rest → Guarded (c :: rest)

/-- A string literal and the text behind it. The literal runs to the first quote that is not
escaped; without such a quote nothing is left behind it, and it may end in a backslash with nothing
to escape. -/
inductive Literal : List Char → List Char → Prop
  | closed {inner} (back : List Char) : Guarded inner → Literal ('"' :: (inner ++ ['"'])) back
  | unclosed {inner} : Guarded inner → Literal ('"' :: inner) []
  | unescaped {inner} : Guarded inner → Literal ('"' :: (inner ++ ['\\'])) []

end Quoted

/-- What a lexeme is made of, kind by kind, and why it ends where it does. -/
structure Lexeme.Exact (l : Lexeme) : Prop where
  text_ne_nil : l.text ≠ []
  kind_ne_endOfInput : l.kind ≠ .endOfInput
  /-- A keyword and a name are letters, as many as there are. -/
  letters : l.kind = .identifier ∨ l.kind.isKeyword = true →
    (∀ c ∈ l.text, isLetter c = true) ∧ ∀ c ∈ l.rest.head?, isLetter c = false
  /-- Letters are the keyword they spell, or else a name. -/
  spelling : (∀ c ∈ l.text, isLetter c = true) → l.kind = .ofSpelling (.ofList l.text)
  /-- An integer is digits, as many as there are. -/
  digits : l.kind = .integer →
    (∀ c ∈ l.text, c.isDigit = true) ∧ ∀ c ∈ l.rest.head?, c.isDigit = false
  /-- A sign is what it is called. -/
  sign : l.kind.isSign = true → .ofList l.text = l.kind.name
  /-- No sign is the first half of another one. -/
  single : l.kind = .assign ∨ l.kind = .bang → l.rest.head? ≠ some '='
  string : l.kind = .string → Quoted.Literal l.text l.rest
  illegal : l.kind = .illegal → ∃ c, l.text = [c] ∧ BeginsNothing c

/-! ## What is read is exact -/

namespace Kind

theorem ofWord_eq_ofSpelling (word : List Char) : ofWord word = ofSpelling (.ofList word) := by
  by_cases h : String.ofList word ∈ keywords
  · simp only [keywords, List.mem_cons, List.not_mem_nil, or_false] at h
    rcases h with h | h | h | h | h | h | h <;>
      (rw [← String.toList_ofList (l := word), h]; rfl)
  · have hnone : reserved.lookup (String.ofList word) = none := by
      rw [List.lookup_eq_none_iff]
      intro p hp
      refine bne_iff_ne.2 ?_
      rintro heq
      exact h (heq ▸ List.mem_map_of_mem (f := Prod.fst) hp)
    rw [ofWord_of_not_keyword h, ofSpelling, hnone, Option.getD_none]

theorem isSign_ofWord (word : List Char) : (ofWord word).isSign = false := by
  unfold ofWord
  split <;> rfl

/-- A character that signs begin with is one by itself, and is called what it is. -/
theorem name_ofSign {c : Char} (h : ofSign c ≠ .illegal) : String.ofList [c] = (ofSign c).name := by
  unfold ofSign at h ⊢
  split at h <;> first | rfl | exact absurd rfl h

theorem ofSign_ne_illegal : ∀ c ∈ signs, ofSign c ≠ .illegal := by
  have hall : signs.all (ofSign · != .illegal) = true := rfl
  exact fun c hc => bne_iff_ne.1 (List.all_eq_true.1 hall c hc)

theorem isKeyword_ofSign (c : Char) : (ofSign c).isKeyword = false := by
  unfold ofSign
  split <;> rfl

theorem eq_of_ofSign {c d : Char} {k : Kind} (h : ofSign c = k) (hk : k.name = String.ofList [d])
    (hi : k ≠ .illegal := by decide) : c = d := by
  subst h
  have hname := (name_ofSign hi).trans hk
  rw [← String.toList_inj, String.toList_ofList, String.toList_ofList] at hname
  exact (List.cons.inj hname).1

end Kind

namespace Quoted

/-- Behind its opening quote a literal may begin with anything that leaves what is guarded so. -/
theorem Literal.prepend {body back : List Char} (h : Literal ('"' :: body) back)
    (front : List Char) (hf : ∀ {inner}, Guarded inner → Guarded (front ++ inner)) :
    Literal ('"' :: (front ++ body)) back := by
  cases h with
  | @closed inner _ hi =>
    rw [← List.append_assoc]
    exact .closed back (hf hi)
  | unclosed hi => exact .unclosed (hf hi)
  | @unescaped inner hi =>
    rw [← List.append_assoc]
    exact .unescaped (hf hi)

/-- Cut behind its closing quote, a text begins with a literal. -/
theorem literal_split (text : List Char) : Literal ('"' :: (split text).1) (split text).2 := by
  fun_induction split text with
  | case1 => exact .unclosed .nil
  | case2 rest => exact .closed rest .nil
  | case3 c rest ih => exact ih.prepend ['\\', c] fun hi => .escape c hi
  | case4 c rest hq hb ih =>
    by_cases hc : c = '\\'
    · subst hc
      cases rest with
      | nil => exact .unescaped .nil
      | cons d rest => exact absurd rfl (hb d rest rfl)
    · exact ih.prepend [c] fun hi => .plain hq hc hi

end Quoted

namespace Lexeme

/-- The longest run of characters of a class: it has only such characters, and no such character
stands behind it. -/
theorem longest_run {p : Char → Bool} {c : Char} (hc : p c = true) (rest : List Char) :
    (∀ d ∈ c :: rest.takeWhile p, p d = true) ∧ ∀ d ∈ (rest.dropWhile p).head?, p d = false := by
  refine ⟨fun d hd => ?_, fun d hd => ?_⟩
  · rcases List.mem_cons.1 hd with rfl | hd
    · exact hc
    · exact List.all_eq_true.1 List.all_takeWhile d hd
  · have h := List.head?_dropWhile_not p rest
    rw [hd] at h
    exact h

theorem exact_word {c : Char} (hc : isLetter c = true) (rest : List Char) :
    Exact ⟨.ofWord (c :: rest.takeWhile isLetter), c :: rest.takeWhile isLetter,
      rest.dropWhile isLetter⟩ where
  text_ne_nil := List.cons_ne_nil _ _
  kind_ne_endOfInput := Kind.ofWord_ne rfl Kind.noConfusion _
  letters _ := longest_run hc rest
  spelling _ := Kind.ofWord_eq_ofSpelling _
  digits h := absurd h (Kind.ofWord_ne rfl Kind.noConfusion _)
  sign h := by
    rw [Kind.isSign_ofWord] at h
    cases h
  single h := by
    rcases h with h | h <;> exact absurd h (Kind.ofWord_ne rfl Kind.noConfusion _)
  string h := absurd h (Kind.ofWord_ne rfl Kind.noConfusion _)
  illegal h := absurd h (Kind.ofWord_ne rfl Kind.noConfusion _)

theorem exact_number {c : Char} (hc : c.isDigit = true) (rest : List Char) :
    Exact ⟨.integer, c :: rest.takeWhile Char.isDigit, rest.dropWhile Char.isDigit⟩ where
  text_ne_nil := List.cons_ne_nil _ _
  kind_ne_endOfInput := Kind.noConfusion
  letters h := by rcases h with h | h <;> cases h
  spelling h := by
    have := h c List.mem_cons_self
    rw [Token.isLetter_of_isDigit hc] at this
    cases this
  digits _ := longest_run hc rest
  sign h := nomatch h
  single h := by rcases h with h | h <;> cases h
  string h := nomatch h
  illegal h := nomatch h

theorem exact_quoted (rest : List Char) :
    Exact ⟨.string, '"' :: (Quoted.split rest).1, (Quoted.split rest).2⟩ where
  text_ne_nil := List.cons_ne_nil _ _
  kind_ne_endOfInput := Kind.noConfusion
  letters h := by rcases h with h | h <;> cases h
  spelling h := nomatch h '"' List.mem_cons_self
  digits h := nomatch h
  sign h := nomatch h
  single h := by rcases h with h | h <;> cases h
  string _ := Quoted.literal_split rest
  illegal h := nomatch h

/-- Two signs are made of two characters. -/
theorem exact_double {k : Kind} {c : Char} (hk : k = .equal ∧ c = '=' ∨ k = .notEqual ∧ c = '!')
    (rest : List Char) : Exact ⟨k, [c, '='], rest⟩ := by
  obtain ⟨rfl, rfl⟩ | ⟨rfl, rfl⟩ := hk
  all_goals exact {
    text_ne_nil := List.cons_ne_nil _ _
    kind_ne_endOfInput := Kind.noConfusion
    letters := fun h => by rcases h with h | h <;> cases h
    spelling := fun h => nomatch h '=' (by simp)
    digits := nofun
    sign := fun _ => rfl
    single := fun h => by rcases h with h | h <;> cases h
    string := nofun
    illegal := nofun }

/-- A sign of one character, or a character that begins nothing. -/
theorem exact_single {c : Char} {rest : List Char} (hb : isBlank c = false)
    (hl : isLetter c = false) (hd : c.isDigit = false) (hq : c ≠ '"')
    (hr : c = '=' ∨ c = '!' → rest.head? ≠ some '=') : Exact ⟨.ofSign c, [c], rest⟩ where
  text_ne_nil := List.cons_ne_nil _ _
  kind_ne_endOfInput := Kind.ofSign_ne_endOfInput c
  letters h := by
    rcases h with h | h
    · exact absurd h (Kind.ofSign_ne c).1
    · rw [Kind.isKeyword_ofSign] at h
      cases h
  spelling h := by
    rw [h c List.mem_cons_self] at hl
    cases hl
  digits h := absurd h (Kind.ofSign_ne c).2.1
  sign h := Kind.name_ofSign fun hi => by
    rw [hi] at h
    cases h
  single h := hr (h.imp (Kind.eq_of_ofSign · rfl) (Kind.eq_of_ofSign · rfl))
  string h := absurd h (Kind.ofSign_ne c).2.2
  illegal h := ⟨c, rfl, hb, hl, hd, hq, fun hs => Kind.ofSign_ne_illegal c hs h⟩

theorem exact_readSign {c : Char} (hb : isBlank c = false) (hl : isLetter c = false)
    (hd : c.isDigit = false) (hq : c ≠ '"') (rest : List Char) : (readSign c rest).Exact := by
  unfold readSign
  split
  · exact exact_double (.inl ⟨rfl, rfl⟩) _
  · exact exact_double (.inr ⟨rfl, rfl⟩) _
  · next heq hne =>
    refine exact_single hb hl hd hq fun hc hhead => ?_
    obtain ⟨rest, rfl⟩ := List.head?_eq_some_iff.1 hhead
    rcases hc with rfl | rfl
    · exact heq rest rfl rfl
    · exact hne rest rfl rfl

/-- What is read is exact, whatever stands there. -/
theorem exact_read {c : Char} (hb : isBlank c = false) (rest : List Char) :
    (read c rest).Exact := by
  rcases read_cases c with hl | hd | rfl | ⟨hl, hd, hq, hsign⟩
  · rw [read_letter hl]
    exact exact_word hl rest
  · rw [read_digit hd]
    exact exact_number hd rest
  · rw [read_quote]
    exact exact_quoted rest
  · rw [hsign]
    exact exact_readSign hb hl hd hq rest

end Lexeme

/-! ## Tokens one behind the other -/

/-- The byte at an offset belongs to the span. -/
def Span.Covers (s : Span) (i : Nat) : Prop := s.start ≤ i ∧ i < s.stop

/-- The token is the lexeme that stands behind `front` in the source. -/
structure Token.Stands (source front : List Char) (l : Lexeme) (t : Token) : Prop where
  source_eq : source = front ++ (l.text ++ l.rest)
  start_eq : t.span.start = byteLength front
  stop_eq : t.span.stop = byteLength front + byteLength l.text
  kind_eq : t.kind = l.kind
  literal_eq : t.kind ≠ .string → t.literal = String.ofList l.text
  exact : l.Exact

/-- Behind `front`, the source is made of the lexemes that the tokens are, with blanks around
them. -/
inductive Tiling (source : List Char) : List Char → List Token → Prop
  | blank {front gap} : source = front ++ gap → (∀ c ∈ gap, isBlank c = true) →
      Tiling source front []
  | token {front gap l t ts} : (∀ c ∈ gap, isBlank c = true) →
      Token.Stands source (front ++ gap) l t → Tiling source (front ++ gap ++ l.text) ts →
      Tiling source front (t :: ts)

/-- The tokens that are scanned behind `front` tile the source from there on. -/
theorem tiling_scanFrom {source front : List Char} (text : List Char) (h : source = front ++ text) :
    Tiling source front (Token.scanFrom (byteLength front) text) := by
  have hgap : ∀ text : List Char, ∀ c ∈ text.takeWhile isBlank, isBlank c = true := fun _ =>
    List.all_eq_true.1 List.all_takeWhile
  refine Token.scan_induction (fun front text hsource hd hscan => ?_)
    (fun front text c rest hsource hd hscan htail => ?_) front text h
  · have htext := List.takeWhile_append_dropWhile (p := isBlank) (l := text)
    rw [hd, List.append_nil] at htext
    rw [hscan]
    exact .blank hsource fun c hc => hgap text c (htext.symm ▸ hc)
  · have hb : isBlank c = false := by
      have hhead := List.head?_dropWhile_not isBlank text
      rw [hd] at hhead
      exact hhead
    rw [hscan]
    refine .token (hgap text) ⟨?_, rfl, rfl, rfl, ?_, ?_⟩ htail
    · rw [Lexeme.read_append, hsource]
    · exact fun hk => Lexeme.literal_of_ne hk
    · exact Lexeme.exact_read hb rest

namespace Tiling

variable {source front : List Char} {ts : List Token}

theorem stands (h : Tiling source front ts) :
    ∀ t ∈ ts, ∃ front l, Token.Stands source front l t := by
  induction h with
  | blank => simp
  | token _ ht _ ih => exact List.forall_mem_cons.2 ⟨⟨_, _, ht⟩, ih⟩

theorem start_le (h : Tiling source front ts) : ∀ t ∈ ts, byteLength front ≤ t.span.start := by
  induction h with
  | blank => simp
  | @token front gap l t ts _ ht _ ih =>
    refine List.forall_mem_cons.2 ⟨?_, fun u hu => ?_⟩
    · rw [ht.start_eq, byteLength_append]
      exact Nat.le_add_right _ _
    · have := ih u hu
      rw [byteLength_append, byteLength_append] at this
      omega

/-- Each token stops before the next ones start. -/
theorem pairwise (h : Tiling source front ts) :
    ts.Pairwise fun t u => t.span.stop ≤ u.span.start := by
  induction h with
  | blank => exact .nil
  | token _ ht hts ih =>
    refine .cons (fun u hu => ?_) ih
    rw [ht.stop_eq, ← byteLength_append]
    exact hts.start_le u hu

end Tiling

/-! ## Bytes -/

/-- Every byte belongs to a character. -/
theorem exists_char_at (text : List Char) {i : Nat} (hi : i < byteLength text) :
    ∃ pre c post, text = pre ++ c :: post ∧ byteLength pre ≤ i ∧
      i < byteLength pre + c.utf8Size := by
  induction text generalizing i with
  | nil => exact absurd hi (Nat.not_lt_zero i)
  | cons c text ih =>
    rw [byteLength_cons] at hi
    by_cases hc : i < c.utf8Size
    · exact ⟨[], c, text, rfl, Nat.zero_le i, by rwa [byteLength_nil, Nat.zero_add]⟩
    · obtain ⟨pre, d, post, rfl, hle, hlt⟩ := ih (i := i - c.utf8Size) (by omega)
      refine ⟨c :: pre, d, post, rfl, ?_, ?_⟩ <;> rw [byteLength_cons] <;> omega

theorem size_utf8Encode (text : List Char) : text.utf8Encode.size = byteLength text := by
  rw [← String.toByteArray_ofList, ← byteLength_ofList]
  rfl

/-- A byte of a text is one of the bytes of its character. -/
theorem getElem_mem_utf8EncodeChar {source : String} {pre post : List Char} {c : Char} {i : Nat}
    (hs : source.toList = pre ++ c :: post) (hle : byteLength pre ≤ i)
    (hlt : i < byteLength pre + c.utf8Size) (hi : i < source.toByteArray.size) :
    source.toByteArray[i] ∈ String.utf8EncodeChar c := by
  have hbytes : source.toByteArray =
      pre.utf8Encode ++ ((String.utf8EncodeChar c).toByteArray ++ post.utf8Encode) := by
    rw [← String.ofList_toList (s := source), String.toByteArray_ofList, hs, List.utf8Encode_append,
      List.utf8Encode_cons, List.utf8Encode_singleton]
  have hsize := size_utf8Encode pre
  have hchar : (String.utf8EncodeChar c).toByteArray.size = c.utf8Size := by simp
  simp only [hbytes]
  rw [ByteArray.getElem_append_right (by omega), ByteArray.getElem_append_left (by omega)]
  simp

/-- The bytes of blanks: space, tab, carriage return and line feed. -/
def blankBytes : List UInt8 := [0x20, 0x09, 0x0D, 0x0A]

theorem mem_blankBytes {c : Char} (h : isBlank c = true) :
    ∀ b ∈ String.utf8EncodeChar c, b ∈ blankBytes := by
  simp only [isBlank, Bool.or_eq_true, beq_iff_eq] at h
  rcases h with ((rfl | rfl) | rfl) | rfl <;> exact List.forall_mem_singleton.2 (by decide)

namespace Tiling

variable {source front : List Char} {ts : List Token}

/-- A byte that belongs to no token belongs to a blank. -/
theorem exists_blank_at (h : Tiling source front ts) {i : Nat} (hle : byteLength front ≤ i)
    (hi : i < byteLength source) (hout : ∀ t ∈ ts, ¬ t.span.Covers i) :
    ∃ pre c post, source = pre ++ c :: post ∧ byteLength pre ≤ i ∧
      i < byteLength pre + c.utf8Size ∧ isBlank c = true := by
  -- Within a gap the character at the byte is a blank, whatever stands in front and behind.
  have hgap : ∀ {front gap : List Char} (back : List Char), source = front ++ (gap ++ back) →
      (∀ c ∈ gap, isBlank c = true) → byteLength front ≤ i →
      i < byteLength front + byteLength gap → ∃ pre c post, source = pre ++ c :: post ∧
        byteLength pre ≤ i ∧ i < byteLength pre + c.utf8Size ∧ isBlank c = true := by
    intro front gap back hs hb hle hlt
    obtain ⟨pre, c, post, rfl, hc, hc'⟩ := exists_char_at gap (i := i - byteLength front)
      (by omega)
    refine ⟨front ++ pre, c, post ++ back, by rw [hs]; simp, ?_, ?_, hb c (by simp)⟩ <;>
      rw [byteLength_append] <;> omega
  induction h with
  | @blank front gap hs hb =>
    refine hgap [] (by rwa [List.append_nil]) hb hle ?_
    rwa [hs, byteLength_append] at hi
  | @token front gap l t ts hb ht hts ih =>
    by_cases hlt : i < byteLength front + byteLength gap
    · exact hgap _ (ht.source_eq.trans (List.append_assoc _ _ _)) hb hle hlt
    · obtain ⟨hout, hout'⟩ := List.forall_mem_cons.1 hout
      refine ih ?_ hout'
      rw [Span.Covers, ht.start_eq, ht.stop_eq] at hout
      rw [byteLength_append] at hout ⊢
      rw [byteLength_append]
      omega

end Tiling

/-- The stream of a source is its tokens and one mark of the end, which is empty and stands behind
the last byte. Each token is a lexeme of the source, and what it is made of and where it ends is as
its kind asks for; it stops before the next one starts; and a byte that belongs to no token is that
of a blank. -/
theorem stream_tiles (source : String) :
    ∃ ts, Token.stream source =
        ts ++ [⟨⟨.endOfInput, ""⟩, ⟨source.utf8ByteSize, source.utf8ByteSize⟩⟩] ∧
      (∀ t ∈ ts, t.kind ≠ .endOfInput ∧ ∃ front l, Token.Stands source.toList front l t) ∧
      (ts.Pairwise fun t u => t.span.stop ≤ u.span.start) ∧
      ∀ (i : Nat) (hi : i < source.toByteArray.size), (∀ t ∈ ts, ¬ t.span.Covers i) →
        source.toByteArray[i] ∈ blankBytes := by
  have htiling : Tiling source.toList [] (Token.scan source) := tiling_scanFrom _ rfl
  refine ⟨Token.scan source, rfl, fun t ht => ?_, htiling.pairwise, fun i hi hout => ?_⟩
  · obtain ⟨front, l, hstands⟩ := htiling.stands t ht
    exact ⟨hstands.kind_eq ▸ hstands.exact.kind_ne_endOfInput, front, l, hstands⟩
  · obtain ⟨pre, c, post, hs, hle, hlt, hb⟩ := htiling.exists_blank_at (Nat.zero_le i)
      (by rwa [byteLength_toList]) hout
    exact mem_blankBytes hb _ (getElem_mem_utf8EncodeChar hs hle hlt hi)

end MonkeyLang
