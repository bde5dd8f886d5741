import MonkeyLang.Json.Printer
import MonkeyLang.Proofs.Text.Decimal

/-!
# The language of JSON texts

What a JSON text is, as a grammar that says nothing about how one is read: `IsText text j` holds if
the characters are a JSON text and `j` is the value that it stands for. An element is a value with
blanks around it, and a text is an element. Inside a string every character may be escaped by the
number of its code unit, and one beyond U+FFFF by those of its two surrogates; eight characters have
a short escape; a quote, a backslash and a control character below U+0020 do not stand for
themselves.

Both printers write texts of this language (`isText_compress`, `isText_pretty`). Numbers that are no
integers keep the text they had, so for these it takes that the text is one of a number (`Proper`).
-/

namespace MonkeyLang.Json

/-! ## Characters and strings -/

/-- The characters behind a backslash that stand for a character other than by its number. -/
def shortEscapes : List (Char × Char) :=
  [('"', '"'), ('\\', '\\'), ('/', '/'), ('b', '\x08'), ('f', '\x0c'), ('n', '\n'), ('r', '\r'),
    ('t', '\t')]

/-- Four hexadecimal digits and the number of the code unit. -/
inductive IsUnit : List Char → Nat → Prop
  | digits {a b c d w x y z} : Hex.digit? a = some w → Hex.digit? b = some x →
      Hex.digit? c = some y → Hex.digit? d = some z →
      IsUnit [a, b, c, d] (((w * 16 + x) * 16 + y) * 16 + z)

/-- The first half of a character beyond U+FFFF. -/
def IsHigh (unit : Nat) : Prop := 0xD800 ≤ unit ∧ unit < 0xDC00

/-- The second half of a character beyond U+FFFF. -/
def IsLow (unit : Nat) : Prop := 0xDC00 ≤ unit ∧ unit < 0xE000

/-- A character as it is written inside a string. -/
inductive IsCharacter : List Char → Char → Prop
  | plain {c} : 0x20 ≤ c.toNat → c ≠ '"' → c ≠ '\\' → IsCharacter [c] c
  | short {e c} : (e, c) ∈ shortEscapes → IsCharacter ['\\', e] c
  | unit {ds u} : IsUnit ds u → ¬ IsHigh u → ¬ IsLow u →
      IsCharacter ('\\' :: 'u' :: ds) (.ofNat u)
  | pair {ds ds' u u'} : IsUnit ds u → IsUnit ds' u' → IsHigh u → IsLow u' →
      IsCharacter ('\\' :: 'u' :: (ds ++ '\\' :: 'u' :: ds'))
        (.ofNat (0x10000 + (u - 0xD800) * 0x400 + (u' - 0xDC00)))

/-- Characters one after the other. -/
inductive IsCharacters : List Char → List Char → Prop
  | nil : IsCharacters [] []
  | cons {t ts c cs} : IsCharacter t c → IsCharacters ts cs → IsCharacters (t ++ ts) (c :: cs)

/-- A string in quotes. -/
inductive IsString : List Char → String → Prop
  | quoted {t s} : IsCharacters t s.toList → IsString ('"' :: (t ++ ['"'])) s

/-! ## Numbers -/

/-- Decimal digits, of which there is at least one. -/
structure IsDigits (ds : List Char) : Prop where
  ne_nil : ds ≠ []
  isDigit : ∀ c ∈ ds, c.isDigit = true

/-- The digits of an integer: a zero, or digits that do not begin with one. -/
inductive IsWhole : List Char → Prop
  | zero : IsWhole ['0']
  | digits {ds} : IsDigits ds → ds.head? ≠ some '0' → IsWhole ds

/-- A point with digits behind it, or nothing. -/
inductive IsFraction : List Char → Prop
  | none : IsFraction []
  | point {ds} : IsDigits ds → IsFraction ('.' :: ds)

/-- An exponent, with or without a sign, or nothing. -/
inductive IsExponent : List Char → Prop
  | none : IsExponent []
  | unsigned {e ds} : e = 'e' ∨ e = 'E' → IsDigits ds → IsExponent (e :: ds)
  | signed {e sign ds} : e = 'e' ∨ e = 'E' → sign = '+' ∨ sign = '-' → IsDigits ds →
      IsExponent (e :: sign :: ds)

/-- The sign of a number. -/
def sign (negative : Bool) : List Char := if negative then ['-'] else []

/-- A number. It is an integer if it is written as one, but for a zero with a minus. -/
inductive IsNumber : List Char → Json → Prop
  | int {negative ds} : IsWhole ds → ¬ (negative = true ∧ Decimal.value ds = 0) →
      IsNumber (sign negative ++ ds)
        (int (if negative then -(Decimal.value ds : Int) else Decimal.value ds))
  | real {negative ds fs es} : IsWhole ds → IsFraction fs → IsExponent es →
      ¬ (fs = [] ∧ es = [] ∧ ¬ (negative = true ∧ Decimal.value ds = 0)) →
      IsNumber (sign negative ++ ds ++ fs ++ es)
        (real (.ofList (sign negative ++ ds ++ fs ++ es)))

/-! ## Values -/

/-- The characters that may stand around values and signs. -/
def blanks : List Char := [' ', '\t', '\n', '\r']

/-- Nothing but blanks. -/
def IsBlanks (b : List Char) : Prop := ∀ c ∈ b, c ∈ blanks

mutual

/-- A value, without blanks around it. -/
inductive IsValue : List Char → Json → Prop
  | null : IsValue ['n', 'u', 'l', 'l'] null
  | true : IsValue ['t', 'r', 'u', 'e'] (bool true)
  | false : IsValue ['f', 'a', 'l', 's', 'e'] (bool false)
  | number {t j} : IsNumber t j → IsValue t j
  | string {t s} : IsString t s → IsValue t (str s)
  | emptyArray {b} : IsBlanks b → IsValue ('[' :: (b ++ [']'])) (arr [])
  | array {t js} : IsItems t js → IsValue ('[' :: (t ++ [']'])) (arr js)
  | emptyObject {b} : IsBlanks b → IsValue ('{' :: (b ++ ['}'])) (obj [])
  | object {t ms} : IsMembers t ms → IsValue ('{' :: (t ++ ['}'])) (obj ms)

/-- A value with blanks around it. -/
inductive IsElement : List Char → Json → Prop
  | padded {b t b' j} : IsBlanks b → IsValue t j → IsBlanks b' → IsElement (b ++ (t ++ b')) j

/-- The items of an array, of which there is at least one. -/
inductive IsItems : List Char → List Json → Prop
  | one {t j} : IsElement t j → IsItems t [j]
  | more {t ts j js} : IsElement t j → IsItems ts js → IsItems (t ++ ',' :: ts) (j :: js)

/-- A member of an object. -/
inductive IsMember : List Char → String × Json → Prop
  | named {b k b' t name j} : IsBlanks b → IsString k name → IsBlanks b' → IsElement t j →
      IsMember (b ++ (k ++ (b' ++ ':' :: t))) (name, j)

/-- The members of an object, of which there is at least one. -/
inductive IsMembers : List Char → List (String × Json) → Prop
  | one {t m} : IsMember t m → IsMembers t [m]
  | more {t ts m ms} : IsMember t m → IsMembers ts ms → IsMembers (t ++ ',' :: ts) (m :: ms)

end

/-- The characters are a JSON text of the value. -/
def IsText (text : String) (j : Json) : Prop := IsElement text.toList j

/-! ## What the printers write -/

mutual

/-- Every number that is no integer has the text of a number. -/
def Proper : Json → Prop
  | real text => IsNumber text.toList (real text)
  | arr items => ProperItems items
  | obj members => ProperMembers members
  | _ => True

/-- All values of a list are proper. -/
def ProperItems : List Json → Prop
  | [] => True
  | item :: rest => item.Proper ∧ ProperItems rest

/-- The values of all members are proper. -/
def ProperMembers : List (String × Json) → Prop
  | [] => True
  | (_, value) :: rest => value.Proper ∧ ProperMembers rest

end

/-- A control character is escaped by its number. -/
theorem isUnit_padded {n : Nat} (h : n < 0x20) : IsUnit (Hex.padded 4 n) n := by
  have hpadded : ∀ n < 0x20, Hex.padded 4 n =
      ['0', '0', (n / 16).digitChar, (n % 16).digitChar] := by decide
  have hzero := Hex.digit?_digitChar (show 0 < 16 by decide)
  have hunit := IsUnit.digits hzero hzero (Hex.digit?_digitChar (show n / 16 < 16 by omega))
    (Hex.digit?_digitChar (Nat.mod_lt n (by decide)))
  have hvalue : ((0 * 16 + 0) * 16 + n / 16) * 16 + n % 16 = n := by omega
  rw [hvalue] at hunit
  rw [hpadded n h]
  exact hunit

/-- A character is written as itself, with a short escape or by its number. -/
theorem isCharacter_escape (c : Char) : IsCharacter (escape c) c := by
  unfold escape
  split
  case h_8 hq hb _ _ _ _ _ =>
    split
    · next hlt =>
      have hunit := IsCharacter.unit (isUnit_padded hlt) (by unfold IsHigh; omega)
        (by unfold IsLow; omega)
      rwa [Char.ofNat_toNat] at hunit
    · next hge => exact .plain (Nat.le_of_not_lt hge) hq hb
  all_goals exact .short (by decide)

theorem isCharacters_escape (cs : List Char) : IsCharacters (cs.flatMap escape) cs := by
  induction cs with
  | nil => exact .nil
  | cons c cs ih => exact .cons (isCharacter_escape c) ih

theorem isString_quote (s : String) : IsString (quote s).toList s := by
  rw [quote, String.toList_ofList]
  exact .quoted (isCharacters_escape s.toList)

/-- A natural number is written without needless zeros in front. -/
theorem isWhole_toDigits (n : Nat) : IsWhole (Nat.toDigits 10 n) := by
  by_cases h : n = 0
  · subst h
    exact .zero
  · exact .digits ⟨Nat.toDigits_ne_nil, fun c hc =>
      Nat.isDigit_of_mem_toDigits (by decide) (by decide) hc⟩ (Decimal.head?_toDigits h)

theorem isNumber_toString (n : Int) : IsNumber (toString n).toList (int n) := by
  have hvalue : ∀ k, Decimal.value (Nat.toDigits 10 k) = k := fun k => by
    rw [Decimal.value_eq_ofDigitChars, Nat.ofDigitChars_ten_toDigits]
  rw [Int.toString_eq_repr, Int.repr_eq_if]
  split
  · next h =>
    have hnumber := @IsNumber.int false _ (isWhole_toDigits n.toNat) nofun
    rw [hvalue, if_neg Bool.false_ne_true, Int.toNat_of_nonneg h] at hnumber
    rw [Nat.toList_repr]
    exact hnumber
  · next h =>
    have hneg := @IsNumber.int true _ (isWhole_toDigits (-n).toNat) (by rw [hvalue]; omega)
    have hn : -((-n).toNat : Int) = n := by omega
    rw [hvalue, if_pos rfl, hn] at hneg
    rw [String.toList_append, Nat.toList_repr]
    exact hneg

theorem isBlanks_nil : IsBlanks [] := nofun

theorem isBlanks_newline (level : Nat) : IsBlanks (newline level).toList := by
  rw [newline, String.toList_ofList]
  rintro c (_ | ⟨_, hc⟩)
  · decide
  · rw [List.eq_of_mem_replicate hc]
    decide

theorem isBlanks_space : IsBlanks [' '] := List.forall_mem_singleton.2 (by decide)

theorem IsBlanks.append {b b' : List Char} (h : IsBlanks b) (h' : IsBlanks b') :
    IsBlanks (b ++ b') := fun c hc => (List.mem_append.1 hc).elim (h c) (h' c)

/-- More blanks may stand behind an element. -/
theorem IsElement.append {t b : List Char} {j : Json} (h : IsElement t j) (hb : IsBlanks b) :
    IsElement (t ++ b) j := by
  cases h with
  | padded hfront ht hback =>
    rw [List.append_assoc, List.append_assoc]
    exact .padded hfront ht (hback.append hb)

theorem IsMember.append {t b : List Char} {m : String × Json} (h : IsMember t m)
    (hb : IsBlanks b) : IsMember (t ++ b) m := by
  cases h with
  | named hfront hname hback helement =>
    have hmember := IsMember.named hfront hname hback (helement.append hb)
    simpa using hmember

/-- A value with nothing around it. -/
theorem IsValue.element {t : List Char} {j : Json} (h : IsValue t j) : IsElement t j := by
  have helement := IsElement.padded isBlanks_nil h isBlanks_nil
  rwa [List.append_nil, List.nil_append] at helement

mutual

/-- The text without blanks is a text of the value. -/
theorem isValue_compress : ∀ j : Json, j.Proper → IsValue j.compress.toList j
  | null, _ => .null
  | bool true, _ => .true
  | bool false, _ => .false
  | int n, _ => .number (isNumber_toString n)
  | real _, h => .number h
  | str s, _ => .string (isString_quote s)
  | arr [], _ => .emptyArray isBlanks_nil
  | arr (j :: js), h => by
    rw [compress, String.toList_append, String.toList_append]
    exact .array (isItems_compressItems (j :: js) (List.cons_ne_nil _ _) h)
  | obj [], _ => .emptyObject isBlanks_nil
  | obj (m :: ms), h => by
    rw [compress, String.toList_append, String.toList_append]
    exact .object (isMembers_compressMembers (m :: ms) (List.cons_ne_nil _ _) h)

theorem isItems_compressItems : ∀ js : List Json, js ≠ [] → ProperItems js →
    IsItems (compressItems js).toList js
  | [], hne, _ => absurd rfl hne
  | [j], _, h => .one (isValue_compress j h.1).element
  | j :: j' :: js, _, h => by
    have hmore := isItems_compressItems (j' :: js) (List.cons_ne_nil _ _) h.2
    have hitems := IsItems.more (isValue_compress j h.1).element hmore
    simpa [compressItems] using hitems

theorem isMembers_compressMembers : ∀ ms : List (String × Json), ms ≠ [] → ProperMembers ms →
    IsMembers (compressMembers ms).toList ms
  | [], hne, _ => absurd rfl hne
  | [(x, j)], _, h => by
    have hmember := IsMembers.one (.named isBlanks_nil (isString_quote x) isBlanks_nil
      (isValue_compress j h.1).element)
    simpa [compressMembers] using hmember
  | (x, j) :: m :: ms, _, h => by
    have hmore := isMembers_compressMembers (m :: ms) (List.cons_ne_nil _ _) h.2
    have hmembers := IsMembers.more (.named isBlanks_nil (isString_quote x) isBlanks_nil
      (isValue_compress j h.1).element) hmore
    simpa [compressMembers] using hmembers

end

/-- What `compress` writes is a JSON text of the value. -/
theorem isText_compress {j : Json} (h : j.Proper) : IsText j.compress j :=
  (isValue_compress j h).element

mutual

/-- The text in lines is a text of the value, at every level. -/
theorem isValue_prettyAt : ∀ (level : Nat) (j : Json), j.Proper →
    IsValue (prettyAt level j).toList j
  | _, null, _ => by rw [prettyAt]; exact .null
  | _, bool true, _ => by rw [prettyAt]; exact .true
  | _, bool false, _ => by rw [prettyAt]; exact .false
  | _, int n, _ => by rw [prettyAt]; exact .number (isNumber_toString n)
  | _, real _, h => by rw [prettyAt]; exact .number h
  | _, str s, _ => by rw [prettyAt]; exact .string (isString_quote s)
  | _, arr [], _ => by rw [prettyAt]; exact .emptyArray isBlanks_nil
  | level, arr (j :: js), h => by
    have hitems := isItems_prettyItems (level + 1) level js
      (.padded (isBlanks_newline (level + 1)) (isValue_prettyAt (level + 1) j h.1) isBlanks_nil) h.2
    simpa [prettyAt] using IsValue.array hitems
  | _, obj [], _ => by rw [prettyAt]; exact .emptyObject isBlanks_nil
  | level, obj ((x, j) :: ms), h => by
    have hmembers := isMembers_prettyMembers (level + 1) level ms
      (.named (isBlanks_newline (level + 1)) (isString_quote x) isBlanks_nil
        (.padded (isBlanks_space) (isValue_prettyAt (level + 1) j h.1) isBlanks_nil)) h.2
    simpa [prettyAt] using IsValue.object hmembers

/-- Items on lines of their own, behind an item, and the line behind the last one. -/
theorem isItems_prettyItems : ∀ (level outer : Nat) (js : List Json) {t : List Char} {j : Json},
    IsElement t j → ProperItems js →
    IsItems (t ++ ((prettyItems level js).toList ++ (newline outer).toList)) (j :: js)
  | _, outer, [], _, _, ht, _ => by
    rw [prettyItems]
    exact .one (ht.append (isBlanks_newline outer))
  | level, outer, j' :: js, _, _, ht, h => by
    have hmore := isItems_prettyItems level outer js
      (.padded (isBlanks_newline level) (isValue_prettyAt level j' h.1) isBlanks_nil) h.2
    simpa [prettyItems] using IsItems.more ht hmore

/-- Members on lines of their own, behind a member, and the line behind the last one. -/
theorem isMembers_prettyMembers : ∀ (level outer : Nat) (ms : List (String × Json))
    {t : List Char} {m : String × Json}, IsMember t m → ProperMembers ms →
    IsMembers (t ++ ((prettyMembers level ms).toList ++ (newline outer).toList)) (m :: ms)
  | _, outer, [], _, _, ht, _ => by
    rw [prettyMembers]
    exact .one (ht.append (isBlanks_newline outer))
  | level, outer, (x, j) :: ms, _, _, ht, h => by
    have hmore := isMembers_prettyMembers level outer ms
      (.named (isBlanks_newline level) (isString_quote x) isBlanks_nil
        (.padded (isBlanks_space) (isValue_prettyAt level j h.1) isBlanks_nil)) h.2
    simpa [prettyMembers] using IsMembers.more ht hmore

end

/-- What `pretty` writes is a JSON text of the value. -/
theorem isText_pretty {j : Json} (h : j.Proper) : IsText j.pretty j :=
  (isValue_prettyAt 0 j h).element

end MonkeyLang.Json
