import MonkeyLang.Text.Escaped

/-!
# Visible text is read back

`Escaped.read?` undoes what `Escaped.render` does. It takes the text a character at a time and
remembers what stands in front: nothing that matters, a backslash, the `u` of a number, or some
digits of one (`Place`). What is written for a character is taken as that character, whatever
follows it (`undo_escape`), so every text is read back from what is written for it (`read?_render`).
And what is written stands on one line (`lineFeed_notMem_render`).
-/

namespace MonkeyLang.Escaped

/-- What the next character stands behind. -/
inductive Place where
  /-- A character that is over. -/
  | plain
  | backslash
  /-- The letter that announces a number. -/
  | letter
  /-- Digits of a number, with the value that they have so far. -/
  | number (value : Nat)

/-- The character that has a short form. -/
def ofShort? : Char → Option Char
  | '"' => some '"'
  | '\\' => some '\\'
  | 'n' => some '\n'
  | 'r' => some '\r'
  | 't' => some '\t'
  | '0' => some '\x00'
  | _ => none

/-- The characters that a text stands for, up to the quote that it ends with. -/
def undo : Place → List Char → Option (List Char)
  | .plain, ['"'] => some []
  | .plain, '"' :: _ => none
  | .plain, '\\' :: rest => undo .backslash rest
  | .plain, c :: rest => (undo .plain rest).map (c :: ·)
  | .backslash, 'u' :: rest => undo .letter rest
  | .backslash, c :: rest => (ofShort? c).bind fun d => (undo .plain rest).map (d :: ·)
  | .letter, '{' :: rest => undo (.number 0) rest
  | .number n, '}' :: rest => (undo .plain rest).map (Char.ofNat n :: ·)
  | .number n, c :: rest => (Hex.digit? c).bind fun d => undo (.number (16 * n + d)) rest
  | _, _ => none

/-- The text that is written so, if any is. -/
def read? (text : String) : Option String :=
  match text.toList with
  | '"' :: rest => (undo .plain rest).map .ofList
  | _ => none

/-! ## What is written is read back -/

theorem undo_plain {c : Char} (rest : List Char) (hq : c ≠ '"') (hb : c ≠ '\\') :
    undo .plain (c :: rest) = (undo .plain rest).map (c :: ·) := by
  rw [undo] <;> simp_all

/-- A digit adds to the number that it stands in. -/
theorem undo_digitChar {k : Nat} (h : k < 16) (n : Nat) (rest : List Char) :
    undo (.number n) (k.digitChar :: rest) = undo (.number (16 * n + k)) rest := by
  have hbrace : ∀ k < 16, k.digitChar ≠ '}' := by decide
  rw [undo, Hex.digit?_digitChar h, Option.bind_some]
  exact hbrace k h

/-- The digits of a number have its value. -/
theorem undo_digits (n : Nat) (rest : List Char) :
    undo (.number 0) (Hex.digits n ++ rest) = undo (.number n) rest := by
  induction n using Nat.strongRecOn generalizing rest with
  | ind n ih =>
    rcases Nat.lt_or_ge n 16 with hlt | hle
    · rw [Hex.digits_of_lt hlt, List.singleton_append, undo_digitChar hlt, Nat.mul_zero,
        Nat.zero_add]
    · rw [Hex.digits_of_le hle, List.append_assoc, ih (n / 16) (by omega), List.singleton_append,
        undo_digitChar (Nat.mod_lt n (by decide)), Nat.div_add_mod]

/-- What is written for a character is taken as that character. -/
theorem undo_escape (c : Char) (rest : List Char) :
    undo .plain (escape c ++ rest) = (undo .plain rest).map (c :: ·) := by
  unfold escape
  split
  case h_7 hq hb _ _ _ _ =>
    split
    · rw [List.append_assoc]
      calc undo .plain (['\\', 'u', '{'] ++ (Hex.digits c.toNat ++ (['}'] ++ rest)))
        _ = undo (.number 0) (Hex.digits c.toNat ++ (['}'] ++ rest)) := rfl
        _ = undo (.number c.toNat) ('}' :: rest) := undo_digits c.toNat _
        _ = (undo .plain rest).map (c :: ·) := by rw [undo, Char.ofNat_toNat]
    · exact undo_plain rest hq hb
  all_goals rfl

theorem undo_flatMap_escape (text : List Char) :
    undo .plain (text.flatMap escape ++ ['"']) = some text := by
  induction text with
  | nil => rfl
  | cons c cs ih => rw [List.flatMap_cons, List.append_assoc, undo_escape, ih, Option.map_some]

/-- Every text is read back from what is written for it. -/
theorem read?_render (text : String) : read? (render text) = some text := by
  simp only [read?, render, String.toList_ofList, undo_flatMap_escape, Option.map_some,
    String.ofList_toList]

/-! ## What is written stands on one line -/

theorem lineFeed_notMem_digits (n : Nat) : '\n' ∉ Hex.digits n := by
  intro h
  obtain ⟨k, hk, hc⟩ := Hex.exists_digitChar_of_mem h
  have hne : ∀ k < 16, '\n' ≠ k.digitChar := by decide
  exact hne k hk hc

theorem lineFeed_notMem_escape (c : Char) : '\n' ∉ escape c := by
  unfold escape
  split
  case h_7 hn _ _ _ =>
    split
    · simp [lineFeed_notMem_digits]
    · simpa using Ne.symm hn
  all_goals decide

theorem lineFeed_notMem_render (text : String) : '\n' ∉ (render text).toList := by
  rw [render, String.toList_ofList]
  simp [lineFeed_notMem_escape]

end MonkeyLang.Escaped
