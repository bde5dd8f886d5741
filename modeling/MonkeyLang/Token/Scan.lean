import MonkeyLang.Text.Bytes
import MonkeyLang.Text.Quoted
import MonkeyLang.Token.Basic

/-!
# Scanning

A source is cut into lexemes, each as long as it can be: a word of letters and underscores, a
number of digits, a string literal, one of the signs `==` and `!=`, or a single character.
Between them blanks (space, tab, carriage return, line feed) are skipped. Letters and digits are
those of ASCII; a character that begins nothing else is an illegal token by itself.

`Lexeme.read` reads the lexeme that begins with a given character, `next?` the next token, and
`scan` all tokens of a source. `Lexeme.read_append` and `next?_shorter` say that nothing is lost
and that scanning moves on; `scanFrom_of_next?` and `scanFrom_eq_nil` unfold the scan.
-/

namespace MonkeyLang

/-- Blanks separate tokens and mean nothing else. -/
def isBlank (c : Char) : Bool := c == ' ' || c == '\t' || c == '\r' || c == '\n'

/-- A character that words are made of. -/
def isLetter (c : Char) : Bool := c.isAlpha || c == '_'

/-- A lexeme at the head of a text: its kind, its characters, and the text behind it. -/
structure Lexeme where
  kind : Kind
  text : List Char
  rest : List Char

namespace Lexeme

/-- The sign that begins with `c`: two characters long where that makes one. -/
def readSign (c : Char) (rest : List Char) : Lexeme :=
  match c, rest with
  | '=', '=' :: rest => ⟨.equal, ['=', '='], rest⟩
  | '!', '=' :: rest => ⟨.notEqual, ['!', '='], rest⟩
  | c, rest => ⟨.ofSign c, [c], rest⟩

/-- The lexeme that begins with `c`, which is no blank, in front of `rest`. -/
def read (c : Char) (rest : List Char) : Lexeme :=
  if isLetter c then
    ⟨.ofWord (c :: rest.takeWhile isLetter), c :: rest.takeWhile isLetter, rest.dropWhile isLetter⟩
  else if c.isDigit then
    ⟨.integer, c :: rest.takeWhile Char.isDigit, rest.dropWhile Char.isDigit⟩
  else if c = '"' then
    ⟨.string, c :: (Quoted.split rest).1, (Quoted.split rest).2⟩
  else
    readSign c rest

/-- The literal of a lexeme: a string is decoded, all else is taken as it is written. -/
def literal (l : Lexeme) : String :=
  .ofList (if l.kind = .string then Quoted.decode l.text.tail else l.text)

/-- The token that a lexeme is at a byte offset. -/
def token (l : Lexeme) (offset : Nat) : Token :=
  ⟨⟨l.kind, l.literal⟩, ⟨offset, offset + byteLength l.text⟩⟩

theorem readSign_append (c : Char) (rest : List Char) :
    (readSign c rest).text ++ (readSign c rest).rest = c :: rest := by
  unfold readSign
  split <;> rfl

/-- Reading a lexeme loses nothing. -/
theorem read_append (c : Char) (rest : List Char) :
    (read c rest).text ++ (read c rest).rest = c :: rest := by
  unfold read
  split
  · simp
  · split
    · simp
    · split
      · simp [Quoted.split_append]
      · exact readSign_append c rest

theorem readSign_text_ne_nil (c : Char) (rest : List Char) : (readSign c rest).text ≠ [] := by
  unfold readSign
  split <;> simp

/-- No lexeme is empty. -/
theorem read_text_ne_nil (c : Char) (rest : List Char) : (read c rest).text ≠ [] := by
  unfold read
  split
  · simp
  · split
    · simp
    · split
      · simp
      · exact readSign_text_ne_nil c rest

/-- Behind a lexeme there is less text than it was read from. -/
theorem length_read_rest_lt (c : Char) (rest : List Char) :
    (read c rest).rest.length < (c :: rest).length := by
  have h := congrArg List.length (read_append c rest)
  have hpos := List.length_pos_iff.2 (read_text_ne_nil c rest)
  rw [List.length_append] at h
  omega

end Lexeme

namespace Token

/-- The next token of a text that begins at a byte offset, and the text behind it. -/
def next? (offset : Nat) (text : List Char) : Option (Token × List Char) :=
  match text.dropWhile isBlank with
  | [] => none
  | c :: rest =>
    let lexeme := Lexeme.read c rest
    some (lexeme.token (offset + byteLength (text.takeWhile isBlank)), lexeme.rest)

/-- Behind a token there is less text than in front of it. -/
theorem next?_shorter {offset : Nat} {text rest : List Char} {t : Token}
    (h : next? offset text = some (t, rest)) : rest.length < text.length := by
  unfold next? at h
  split at h
  · simp at h
  · next c tail hd =>
    simp only [Option.some.injEq, Prod.mk.injEq] at h
    have hle := (List.dropWhile_suffix isBlank (l := text)).length_le
    rw [hd] at hle
    rw [← h.2]
    exact Nat.lt_of_lt_of_le (Lexeme.length_read_rest_lt c tail) hle

/-- The tokens of a text that begins at a byte offset, without a mark for its end. -/
def scanFrom (offset : Nat) (text : List Char) : List Token :=
  match _h : next? offset text with
  | none => []
  | some (t, rest) => t :: scanFrom t.span.stop rest
termination_by text.length
decreasing_by exact next?_shorter _h

/-- The tokens of a source, without a mark for its end. -/
def scan (source : String) : List Token := scanFrom 0 source.toList

/-- The tokens of a source and the mark behind the last of them. -/
def stream (source : String) : List Token := scan source ++ [endOfInput source.utf8ByteSize]

theorem scanFrom_of_next? {offset : Nat} {text rest : List Char} {t : Token}
    (h : next? offset text = some (t, rest)) :
    scanFrom offset text = t :: scanFrom t.span.stop rest := by
  rw [scanFrom]
  split
  · next h' => simp [h] at h'
  · next t' rest' h' =>
    rw [h] at h'
    cases h'
    rfl

theorem scanFrom_eq_nil {offset : Nat} {text : List Char} (h : next? offset text = none) :
    scanFrom offset text = [] := by
  rw [scanFrom]
  split
  · rfl
  · next h' => simp [h] at h'

/-- There are no more tokens than characters. -/
theorem length_scanFrom_le (offset : Nat) (text : List Char) :
    (scanFrom offset text).length ≤ text.length := by
  rcases h : next? offset text with _ | ⟨t, rest⟩
  · rw [scanFrom_eq_nil h]
    exact Nat.zero_le _
  · have hlt := next?_shorter h
    have hle := length_scanFrom_le t.span.stop rest
    rw [scanFrom_of_next? h, List.length_cons]
    omega
termination_by text.length

@[simp] theorem scanFrom_nil (offset : Nat) : scanFrom offset [] = [] := scanFrom_eq_nil rfl

end Token

end MonkeyLang
