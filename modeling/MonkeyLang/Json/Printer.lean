import MonkeyLang.Json.Basic
import MonkeyLang.Text.Hex

/-!
# JSON as text

A value has two texts: `compress` writes no blank at all, and `pretty` puts every item and member
on a line of its own, indented by two spaces for each level. In strings only the quote, the
backslash and the control characters below U+0020 are escaped, with a short form where JSON has
one. `lines` says what stands on which line of the second text, and `newline_pretty` that the text
is these lines.
-/

namespace MonkeyLang.Json

/-- How a character is written inside a string. -/
def escape (c : Char) : List Char :=
  match c with
  | '"' => ['\\', '"']
  | '\\' => ['\\', '\\']
  | '\n' => ['\\', 'n']
  | '\r' => ['\\', 'r']
  | '\t' => ['\\', 't']
  | '\x08' => ['\\', 'b']
  | '\x0c' => ['\\', 'f']
  | c => if c.toNat < 0x20 then '\\' :: 'u' :: Hex.padded 4 c.toNat else [c]

/-- A string in quotes. -/
def quote (s : String) : String := String.ofList ('"' :: (s.toList.flatMap escape ++ ['"']))

mutual

/-- The text of a value, without blanks. -/
def compress : Json → String
  | null => "null"
  | bool value => toString value
  | int value => toString value
  | real text => text
  | str value => quote value
  | arr items => "[" ++ compressItems items ++ "]"
  | obj members => "\x7b" ++ compressMembers members ++ "\x7d"

/-- The texts of values, with commas between them. -/
def compressItems : List Json → String
  | [] => ""
  | [item] => item.compress
  | item :: rest => item.compress ++ "," ++ compressItems rest

/-- The texts of members, with commas between them. -/
def compressMembers : List (String × Json) → String
  | [] => ""
  | [(name, value)] => quote name ++ ":" ++ value.compress
  | (name, value) :: rest => quote name ++ ":" ++ value.compress ++ "," ++ compressMembers rest

end

/-- A new line, indented for a level. -/
def newline (level : Nat) : String := String.ofList ('\n' :: List.replicate (2 * level) ' ')

mutual

/-- The text of a value that stands at a level, in lines. -/
def prettyAt (level : Nat) : Json → String
  | null => "null"
  | bool value => toString value
  | int value => toString value
  | real text => text
  | str value => quote value
  | arr [] => "[]"
  | arr (item :: rest) =>
    "[" ++ newline (level + 1) ++ prettyAt (level + 1) item ++ prettyItems (level + 1) rest ++
      newline level ++ "]"
  | obj [] => "\x7b\x7d"
  | obj ((name, value) :: rest) =>
    "\x7b" ++ newline (level + 1) ++ quote name ++ ": " ++ prettyAt (level + 1) value ++
      prettyMembers (level + 1) rest ++ newline level ++ "\x7d"

/-- The items of an array behind the first one, each on a line of its own. -/
def prettyItems (level : Nat) : List Json → String
  | [] => ""
  | item :: rest => "," ++ newline level ++ prettyAt level item ++ prettyItems level rest

/-- The members of an object behind the first one, each on a line of its own. -/
def prettyMembers (level : Nat) : List (String × Json) → String
  | [] => ""
  | (name, value) :: rest =>
    "," ++ newline level ++ quote name ++ ": " ++ prettyAt level value ++ prettyMembers level rest

end

/-- The text of a value, in lines. -/
def pretty (j : Json) : String := prettyAt 0 j

/-! ## The layout of the text -/

/-- A line: the level it stands at, and what stands in it. -/
structure Line where
  level : Nat
  text : String
deriving DecidableEq, Repr, Inhabited

/-- The lines as they are written, each behind a line feed and two blanks for each level. -/
def written (ls : List Line) : String := String.join (ls.map fun l => newline l.level ++ l.text)

/-- The lines with a text in front of the first one. -/
def inFront (text : String) : List Line → List Line
  | [] => []
  | l :: ls => ⟨l.level, text ++ l.text⟩ :: ls

/-- The lines with a comma at the end of the last one. -/
def withComma : List Line → List Line
  | [] => []
  | [l] => [⟨l.level, l.text ++ ","⟩]
  | l :: l' :: ls => l :: withComma (l' :: ls)

/-- The lines of one thing after the other, with commas between them. -/
def separated : List (List Line) → List Line
  | [] => []
  | [ls] => ls
  | ls :: ls' :: rest => withComma ls ++ separated (ls' :: rest)

mutual

/-- The lines of a value that stands at a level. Brackets stand on lines of their own, and the lines
of what is in them are one level deeper. -/
def lines (level : Nat) : Json → List Line
  | null => [⟨level, "null"⟩]
  | bool value => [⟨level, toString value⟩]
  | int value => [⟨level, toString value⟩]
  | real text => [⟨level, text⟩]
  | str value => [⟨level, quote value⟩]
  | arr [] => [⟨level, "[]"⟩]
  | arr (item :: rest) =>
    ⟨level, "["⟩ :: (separated (lines (level + 1) item :: itemLines (level + 1) rest) ++
      [⟨level, "]"⟩])
  | obj [] => [⟨level, "\x7b\x7d"⟩]
  | obj ((name, value) :: rest) =>
    ⟨level, "\x7b"⟩ :: (separated (inFront (quote name ++ ": ") (lines (level + 1) value) ::
      memberLines (level + 1) rest) ++ [⟨level, "\x7d"⟩])

/-- The lines of every item. -/
def itemLines (level : Nat) : List Json → List (List Line)
  | [] => []
  | item :: rest => lines level item :: itemLines level rest

/-- The lines of every member, with its name in front. -/
def memberLines (level : Nat) : List (String × Json) → List (List Line)
  | [] => []
  | (name, value) :: rest =>
    inFront (quote name ++ ": ") (lines level value) :: memberLines level rest

end

theorem written_cons (l : Line) (ls : List Line) :
    written (l :: ls) = newline l.level ++ (l.text ++ written ls) := by
  rw [written, List.map_cons, String.join_cons, String.append_assoc, ← written]

theorem written_append (ls ls' : List Line) : written (ls ++ ls') = written ls ++ written ls' := by
  rw [written, List.map_append, String.join_append, ← written, ← written]

/-- The last line has the comma. -/
theorem written_withComma {ls : List Line} (h : ls ≠ []) :
    written (withComma ls) = written ls ++ "," := by
  induction ls with
  | nil => exact absurd rfl h
  | cons l ls ih =>
    cases ls with
    | nil =>
      rw [withComma, written_cons, written_cons, String.append_assoc, String.append_assoc,
        String.append_assoc]
      rfl
    | cons l' ls =>
      rw [withComma, written_cons, ih (List.cons_ne_nil l' ls), written_cons l,
        String.append_assoc, String.append_assoc]

theorem written_separated {ls : List Line} {rest : List (List Line)}
    (h : ∀ ls' ∈ ls :: rest, ls' ≠ []) :
    written (separated (ls :: rest)) =
      written ls ++ String.join (rest.map fun ls' => "," ++ written ls') := by
  induction rest generalizing ls with
  | nil => rw [separated, List.map_nil, String.join_nil, String.append_empty]
  | cons ls' rest ih =>
    obtain ⟨hls, hrest⟩ := List.forall_mem_cons.1 h
    rw [separated, written_append, written_withComma hls, ih hrest, List.map_cons,
      String.join_cons, String.append_assoc, String.append_assoc]

/-- The first line of a value stands at its level. -/
theorem exists_lines_eq (level : Nat) (j : Json) :
    ∃ text ls, lines level j = ⟨level, text⟩ :: ls := by
  rcases j with _ | _ | _ | _ | _ | (_ | _) | (_ | _) <;> exact ⟨_, _, by rw [lines]⟩

theorem lines_ne_nil (level : Nat) (j : Json) : lines level j ≠ [] := by
  obtain ⟨text, ls, h⟩ := exists_lines_eq level j
  exact h ▸ List.cons_ne_nil _ ls

theorem inFront_lines_ne_nil (text : String) (level : Nat) (j : Json) :
    inFront text (lines level j) ≠ [] := by
  obtain ⟨text', ls, h⟩ := exists_lines_eq level j
  exact h ▸ List.cons_ne_nil _ ls

theorem itemLines_ne_nil (level : Nat) (items : List Json) :
    ∀ ls ∈ itemLines level items, ls ≠ [] := by
  induction items with
  | nil => exact nofun
  | cons item rest ih => exact List.forall_mem_cons.2 ⟨lines_ne_nil level item, ih⟩

theorem memberLines_ne_nil (level : Nat) (members : List (String × Json)) :
    ∀ ls ∈ memberLines level members, ls ≠ [] := by
  induction members with
  | nil => exact nofun
  | cons member rest ih => exact List.forall_mem_cons.2 ⟨inFront_lines_ne_nil _ level _, ih⟩

theorem written_inFront {level : Nat} {j : Json}
    (h : written (lines level j) = newline level ++ prettyAt level j) (text : String) :
    written (inFront text (lines level j)) = newline level ++ (text ++ prettyAt level j) := by
  obtain ⟨text', ls, hlines⟩ := exists_lines_eq level j
  rw [hlines, written_cons] at h
  rw [hlines, inFront, written_cons, ← (String.append_right_inj _).1 h, String.append_assoc]

mutual

/-- A value that stands at a level is written as its lines are. -/
theorem written_lines : ∀ (level : Nat) (j : Json),
    written (lines level j) = newline level ++ prettyAt level j
  | _, null | _, bool _ | _, int _ | _, real _ | _, str _ | _, arr [] | _, obj [] => by
    simp [lines, prettyAt, written]
  | level, arr (item :: rest) => by
    have hitem := written_lines (level + 1) item
    have hrest := join_itemLines (level + 1) rest
    have hlines := itemLines_ne_nil (level + 1) (item :: rest)
    rw [itemLines] at hlines
    simp only [lines, prettyAt, written_cons, written_append, written_separated hlines, hitem,
      hrest, String.append_assoc]
    simp [written]
  | level, obj ((name, value) :: rest) => by
    have hmember := written_inFront (written_lines (level + 1) value) (quote name ++ ": ")
    have hrest := join_memberLines (level + 1) rest
    have hlines := memberLines_ne_nil (level + 1) ((name, value) :: rest)
    rw [memberLines] at hlines
    simp only [lines, prettyAt, written_cons, written_append, written_separated hlines, hmember,
      hrest, String.append_assoc]
    simp [written]

theorem join_itemLines : ∀ (level : Nat) (items : List Json),
    String.join ((itemLines level items).map fun ls => "," ++ written ls) =
      prettyItems level items
  | _, [] => rfl
  | level, item :: rest => by
    rw [itemLines, List.map_cons, String.join_cons, written_lines level item,
      join_itemLines level rest, prettyItems]
    simp only [String.append_assoc]

theorem join_memberLines : ∀ (level : Nat) (members : List (String × Json)),
    String.join ((memberLines level members).map fun ls => "," ++ written ls) =
      prettyMembers level members
  | _, [] => rfl
  | level, (name, value) :: rest => by
    rw [memberLines, List.map_cons, String.join_cons,
      written_inFront (written_lines level value), join_memberLines level rest, prettyMembers]
    simp only [String.append_assoc]

end

/-- The text of a value, behind a line feed, is that of its lines: every item and member begins a
line of its own, one level deeper than the bracket around it, and a line is indented by two blanks
for each level. -/
theorem newline_pretty (j : Json) : newline 0 ++ j.pretty = written (lines 0 j) :=
  (written_lines 0 j).symm

end MonkeyLang.Json
