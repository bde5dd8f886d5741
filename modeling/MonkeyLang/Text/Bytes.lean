/-!
# Lengths in bytes

Texts are scanned as lists of characters and located by byte offsets. `byteLength` is the number
of bytes a list of characters takes in UTF-8; `byteLength_toList` says that it is the length of
the string the characters make up.
-/

namespace MonkeyLang

/-- The number of bytes the characters take in UTF-8. -/
def byteLength : List Char → Nat
  | [] => 0
  | c :: rest => c.utf8Size + byteLength rest

@[simp] theorem byteLength_nil : byteLength [] = 0 := rfl

@[simp] theorem byteLength_cons (c : Char) (rest : List Char) :
    byteLength (c :: rest) = c.utf8Size + byteLength rest := rfl

@[simp] theorem byteLength_append (front back : List Char) :
    byteLength (front ++ back) = byteLength front + byteLength back := by
  induction front with
  | nil => simp
  | cons c cs ih => simp [ih, Nat.add_assoc]

/-- No character is without a byte. -/
theorem length_le_byteLength (text : List Char) : text.length ≤ byteLength text := by
  induction text with
  | nil => simp
  | cons c cs ih =>
    have := c.utf8Size_pos
    simp only [byteLength_cons, List.length_cons]
    omega

theorem byteLength_ofList (text : List Char) :
    (String.ofList text).utf8ByteSize = byteLength text := by
  induction text with
  | nil => simp [String.ofList_nil]
  | cons c cs ih =>
    have h : String.ofList (c :: cs) = String.singleton c ++ String.ofList cs := by
      rw [String.singleton_eq_ofList, ← String.ofList_append]
      rfl
    rw [h, String.utf8ByteSize_append, ih, String.utf8ByteSize_singleton, byteLength_cons]

/-- A string is as long as its characters. -/
@[simp] theorem byteLength_toList (text : String) : byteLength text.toList = text.utf8ByteSize := by
  rw [← byteLength_ofList, String.ofList_toList]

end MonkeyLang
