import MonkeyLang.Proofs.Text.ByteOrder
import MonkeyLang.Proofs.Text.Quoted
import MonkeyLang.Proofs.Token.Surroundings

/-!
# The two scans of a string literal

A string literal is scanned twice: once for its end, among the bytes of the source, and once for its
contents, character by character from the text that was cut out. Both keep account of what a
backslash protects, the first one a byte at a time and the second one a character at a time.
`Quoted.Cut` says that they stop at the same place, and what is cut out there: characters that stand
for themselves, and characters with a backslash in front, one for each character of the contents
(`Spells`), and then what the literal ends with. Behind an opening quote every text is cut so
(`Quoted.exists_cut`), and so is the source at each of its string tokens (`literal_scans_agree`).
-/

namespace MonkeyLang

namespace Quoted

/-- The contents of a literal, given what follows its opening quote, and what is left where decoding
stops. -/
def decodeWithRest : List Char → List Char × List Char
  | [] => ([], [])
  | '"' :: rest => ([], rest)
  | ['\\'] => ([], [])
  | '\\' :: c :: rest => (unescape c :: (decodeWithRest rest).1, (decodeWithRest rest).2)
  | c :: rest => (c :: (decodeWithRest rest).1, (decodeWithRest rest).2)

/-- Decoding is the same whether or not one asks for what is left. -/
theorem fst_decodeWithRest (text : List Char) : (decodeWithRest text).1 = decode text := by
  fun_induction decode text with
  | case1 | case2 | case3 => rfl
  | case4 c rest ih => rw [decodeWithRest, ih]
  | case5 c rest hq hs hb ih => rw [decodeWithRest] <;> simp_all

/-- The characters inside a literal, each with a backslash in front or by itself, and the contents
that they stand for, a character for each. -/
inductive Spells : List Char → List Char → Prop
  | nil : Spells [] []
  | escape {inner contents} (c : Char) : Spells inner contents →
      Spells ('\\' :: c :: inner) (unescape c :: contents)
  | plain {c inner contents} : c ≠ '"' → c ≠ '\\' → Spells inner contents →
      Spells (c :: inner) (c :: contents)

/-- What a literal ends with, and the text behind it: a quote closes it, or the text ends, with a
backslash that has nothing to protect or without one. -/
inductive Finish : List Char → List Char → Prop
  | quote (back : List Char) : Finish ['"'] back
  | nothing : Finish [] []
  | backslash : Finish ['\\'] []

/-- Behind an opening quote stand the rest of a literal and the text `back`. Among the bytes the
literal ends where `body` does. Decoding stops there as well, whether or not it can see more, and
all of `body` went into the contents but for the backslashes in front of characters and what the
literal ends with. -/
structure Cut (body back contents : List Char) : Prop where
  closing_eq : closing false ((body ++ back).flatMap String.utf8EncodeChar) = byteLength body
  decode_text : decodeWithRest (body ++ back) = (contents, back)
  decode_body : decodeWithRest body = (contents, [])
  spells : ∃ inner last, body = inner ++ last ∧ Spells inner contents ∧ Finish last back

theorem decodeWithRest_cons {c : Char} (rest : List Char) (hq : c ≠ '"') (hb : c ≠ '\\') :
    decodeWithRest (c :: rest) = (c :: (decodeWithRest rest).1, (decodeWithRest rest).2) := by
  rw [decodeWithRest] <;> simp_all

/-- Decoding stops behind what the literal ends with. -/
theorem Spells.decodeWithRest_append {inner contents last back : List Char}
    (h : Spells inner contents) (hlast : Finish last back) :
    decodeWithRest (inner ++ (last ++ back)) = (contents, back) := by
  induction h with
  | nil => cases hlast <;> rfl
  | escape c _ ih => rw [List.cons_append, List.cons_append, decodeWithRest, ih]
  | plain hq hb _ ih => rw [List.cons_append, decodeWithRest_cons _ hq hb, ih]

/-- Cut behind its end, a literal is made of characters that spell its contents. -/
theorem exists_spells (text : List Char) :
    ∃ inner contents last, (split text).1 = inner ++ last ∧ Spells inner contents ∧
      Finish last (split text).2 := by
  fun_induction split text with
  | case1 => exact ⟨[], [], [], rfl, .nil, .nothing⟩
  | case2 rest => exact ⟨[], [], ['"'], rfl, .nil, .quote rest⟩
  | case3 c rest ih =>
    obtain ⟨inner, contents, last, hsplit, hspells, hlast⟩ := ih
    refine ⟨'\\' :: c :: inner, unescape c :: contents, last, ?_, .escape c hspells, hlast⟩
    rw [hsplit]
    rfl
  | case4 c rest hq hb ih =>
    by_cases hc : c = '\\'
    · subst hc
      cases rest with
      | nil => exact ⟨[], [], ['\\'], rfl, .nil, .backslash⟩
      | cons d rest => exact absurd rfl (hb d rest rfl)
    · obtain ⟨inner, contents, last, hsplit, hspells, hlast⟩ := ih
      refine ⟨c :: inner, c :: contents, last, ?_, .plain hq hc hspells, hlast⟩
      rw [hsplit]
      rfl

/-- What a literal ends with may be all there is. -/
theorem Finish.of_nothing_behind {last back : List Char} (h : Finish last back) :
    Finish last [] := by
  cases h with
  | quote => exact .quote []
  | nothing => exact .nothing
  | backslash => exact .backslash

/-- Both scans cut a text at one place. -/
theorem cut_split (text : List Char) : Cut (split text).1 (split text).2 (decode text) := by
  obtain ⟨inner, contents, last, hsplit, hspells, hlast⟩ := exists_spells text
  have htext := split_append text
  have hwhole : decodeWithRest text = (contents, (split text).2) := by
    rw [← hspells.decodeWithRest_append hlast, ← List.append_assoc, ← hsplit, htext]
  have hcontents : decode text = contents := by
    rw [← fst_decodeWithRest, hwhole]
  have hbody := hspells.decodeWithRest_append hlast.of_nothing_behind
  rw [List.append_nil, ← hsplit] at hbody
  rw [hcontents]
  refine ⟨?_, ?_, hbody, inner, last, hsplit, hspells, hlast⟩
  · rw [htext, closing_utf8Encode]
  · rw [htext, hwhole]

end Quoted

namespace Token

/-- Every token of a text is a lexeme that stands where the token starts. -/
theorem exists_lexeme_of_mem {source front text : List Char} {t : Token}
    (hsource : source = front ++ text) (ht : t ∈ scanFrom (byteLength front) text) :
    ∃ front c rest, source = front ++ c :: rest ∧
      t = (Lexeme.read c rest).token (byteLength front) := by
  revert ht
  refine scan_induction (fun front text _ _ hscan ht => ?_)
    (fun front text c rest hhere _ hscan ih ht => ?_) front text hsource
  · rw [hscan] at ht
    cases ht
  · rw [hscan] at ht
    rcases List.mem_cons.1 ht with rfl | ht
    · exact ⟨_, c, rest, hhere, rfl⟩
    · exact ih ht

end Token

/-! ## The source at its string tokens -/

theorem length_flatMap_utf8EncodeChar (text : List Char) :
    (text.flatMap String.utf8EncodeChar).length = byteLength text := by
  induction text with
  | nil => rfl
  | cons c cs ih =>
    rw [List.flatMap_cons, List.length_append, String.length_utf8EncodeChar, ih, byteLength_cons]

/-- The bytes of a source behind a front of it are those of the rest. -/
theorem drop_utf8Bytes {source : String} {front text : List Char}
    (h : source.toList = front ++ text) :
    (utf8Bytes source).drop (byteLength front) = text.flatMap String.utf8EncodeChar := by
  rw [utf8Bytes_eq, h, List.flatMap_append, ← length_flatMap_utf8EncodeChar, List.drop_left]

/-- Only a quote begins a string token, and it is cut from the source as its lexeme is. -/
theorem Token.cut_of_string {source : String} {t : Token} (ht : t ∈ stream source)
    (hkind : t.kind = .string) :
    ∃ front body back, source.toList = front ++ '"' :: (body ++ back) ∧
      t.span = ⟨byteLength front, byteLength front + byteLength ('"' :: body)⟩ ∧
      Quoted.Cut body back t.literal.toList := by
  rcases List.mem_append.1 ht with ht | ht
  · obtain ⟨front, c, rest, hsource, rfl⟩ :=
      exists_lexeme_of_mem (List.nil_append source.toList).symm ht
    have hquote : (Lexeme.read c rest).kind = .string := hkind
    obtain rfl := Lexeme.eq_of_read_string hquote
    refine ⟨front, (Quoted.split rest).1, (Quoted.split rest).2, ?_, rfl, ?_⟩
    · rw [Quoted.split_append, hsource]
    · have hcut := Quoted.cut_split rest
      have hliteral : ((Lexeme.read '"' rest).token (byteLength front)).literal.toList =
          Quoted.decode (Quoted.split rest).1 := String.toList_ofList
      rwa [hliteral, ← Quoted.fst_decodeWithRest, hcut.decode_body]
  · obtain rfl := List.mem_singleton.1 ht
    cases hkind

/-- Whatever text stands behind an opening quote, the end of the literal is found at one place among
the bytes and among the characters. So the slice of the source that a string token covers stops
where the scan of the bytes behind its quote does; decoding takes in the whole of it, and nothing
but the quotes around it, the backslashes in front of characters and a backslash at its end does not
stand for a character of the literal. -/
theorem literal_scans_agree (source : String) :
    (∀ text : List Char, ∃ body back, text = body ++ back ∧
      Quoted.Cut body back (Quoted.decode text)) ∧
    ∀ t ∈ Token.stream source, t.kind = .string →
      ∃ front body back, source.toList = front ++ '"' :: (body ++ back) ∧
        t.span = ⟨byteLength front, byteLength front + byteLength ('"' :: body)⟩ ∧
        t.span.stop = t.span.start + 1 +
          Quoted.closing false ((utf8Bytes source).drop (t.span.start + 1)) ∧
        Quoted.Cut body back t.literal.toList := by
  refine ⟨fun text => ⟨_, _, (Quoted.split_append text).symm, Quoted.cut_split text⟩, ?_⟩
  intro t ht hkind
  obtain ⟨front, body, back, hsource, hspan, hcut⟩ := Token.cut_of_string ht hkind
  have hbehind : source.toList = (front ++ ['"']) ++ (body ++ back) := by
    rw [hsource, List.append_assoc]
    rfl
  refine ⟨front, body, back, hsource, hspan, ?_, hcut⟩
  have hquote : byteLength front + 1 = byteLength (front ++ ['"']) := by
    rw [byteLength_append]
    rfl
  rw [hspan]
  dsimp only
  rw [hquote, drop_utf8Bytes hbehind, hcut.closing_eq, ← byteLength_append, ← byteLength_append,
    List.append_assoc]
  rfl

/-- A backslash in front of a character of two bytes, and one with nothing behind it. -/
theorem literal_scans_agree_unclosed :
    ∃ t ∈ Token.stream "\"\\é\\", t.kind = .string ∧ t.literal = "é" ∧
      ∃ front body back, "\"\\é\\".toList = front ++ '"' :: (body ++ back) ∧
        t.span = ⟨byteLength front, byteLength front + byteLength ('"' :: body)⟩ ∧
        t.span.stop = t.span.start + 1 +
          Quoted.closing false ((utf8Bytes "\"\\é\\").drop (t.span.start + 1)) ∧
        Quoted.Cut body back t.literal.toList := by
  have ht : (⟨⟨.string, "é"⟩, ⟨0, 5⟩⟩ : Token) ∈ Token.stream "\"\\é\\" := by decide +kernel
  exact ⟨_, ht, rfl, rfl, (literal_scans_agree _).2 _ ht rfl⟩

end MonkeyLang
