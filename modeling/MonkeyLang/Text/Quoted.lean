/-!
# String literals

A string literal is written between double quotes, with a backslash in front of a quote or a
backslash and with `\n`, `\t`, `\r` for the three usual controls. `encode` writes one.

Reading has two halves. `split` finds where a literal ends: at the first quote that no backslash
protects, or at the end of the text when there is none. `decode` gives the contents; there any
character behind a backslash stands for itself, `n`, `t` and `r` apart, and a backslash with
nothing behind it is dropped. The main statements are `split_encode` and `decode_encode`: what
`encode` writes is read back whole, whatever text follows it.
-/

namespace MonkeyLang.Quoted

/-- The character that a backslash in front of `c` makes of it. -/
def unescape : Char → Char
  | 'n' => '\n'
  | 't' => '\t'
  | 'r' => '\r'
  | c => c

/-- How one character is written inside a literal. -/
def escape : Char → List Char
  | '"' => ['\\', '"']
  | '\\' => ['\\', '\\']
  | '\n' => ['\\', 'n']
  | '\t' => ['\\', 't']
  | '\r' => ['\\', 'r']
  | c => [c]

/-- The literal whose contents are `contents`, both quotes included. -/
def encode (contents : List Char) : List Char := '"' :: (contents.flatMap escape ++ ['"'])

/-- Cuts the text behind an opening quote after the quote that closes it; without such a quote
the literal takes the whole text. -/
def split : List Char → List Char × List Char
  | [] => ([], [])
  | '"' :: rest => (['"'], rest)
  | '\\' :: c :: rest => ('\\' :: c :: (split rest).1, (split rest).2)
  | c :: rest => (c :: (split rest).1, (split rest).2)

/-- The contents of a literal, given what follows its opening quote. -/
def decode : List Char → List Char
  | [] => []
  | '"' :: _ => []
  | ['\\'] => []
  | '\\' :: c :: rest => unescape c :: decode rest
  | c :: rest => c :: decode rest

theorem split_cons {c : Char} (rest : List Char) (hq : c ≠ '"') (hb : c ≠ '\\') :
    split (c :: rest) = (c :: (split rest).1, (split rest).2) := by
  rw [split] <;> simp_all

theorem decode_cons {c : Char} (rest : List Char) (hq : c ≠ '"') (hb : c ≠ '\\') :
    decode (c :: rest) = c :: decode rest := by
  rw [decode] <;> simp_all

/-- Cutting loses nothing. -/
theorem split_append (text : List Char) : (split text).1 ++ (split text).2 = text := by
  fun_induction split text <;> simp_all

theorem split_escape (c : Char) (rest : List Char) :
    split (escape c ++ rest) = (escape c ++ (split rest).1, (split rest).2) := by
  unfold escape
  split <;> first | rfl | (apply split_cons <;> assumption)

theorem decode_escape (c : Char) (rest : List Char) :
    decode (escape c ++ rest) = c :: decode rest := by
  unfold escape
  split <;> first | rfl | (apply decode_cons <;> assumption)

/-- A written literal ends where it was ended, whatever follows it. -/
theorem split_encode (contents rest : List Char) :
    split (contents.flatMap escape ++ '"' :: rest) = (contents.flatMap escape ++ ['"'], rest) := by
  induction contents with
  | nil => rfl
  | cons c cs ih =>
    rw [List.flatMap_cons, List.append_assoc, split_escape, ih, List.append_assoc]

/-- A written literal has the contents it was written for. -/
theorem decode_encode (contents rest : List Char) :
    decode (contents.flatMap escape ++ '"' :: rest) = contents := by
  induction contents with
  | nil => rfl
  | cons c cs ih => rw [List.flatMap_cons, List.append_assoc, decode_escape, ih]

end MonkeyLang.Quoted
