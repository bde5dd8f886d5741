/-!
# Lines of text

Text is printed in lines, each of them ended by a line feed, and read in lines: a line feed ends a
line, and what follows the last one is a line if it is not empty.
-/

namespace MonkeyLang.Lines

/-- A line: the text with a line feed at its end. -/
def line (text : String) : String := text ++ "\n"

/-- The texts as lines. -/
def join (texts : List String) : String := String.join (texts.map line)

/-- The lines of the characters behind `current`, which begin the first one in reverse. -/
def splitFrom (current : List Char) : List Char → List String
  | [] => if current.isEmpty then [] else [String.ofList current.reverse]
  | c :: rest =>
    if c = '\n' then String.ofList current.reverse :: splitFrom [] rest
    else splitFrom (c :: current) rest

/-- The lines of a text, without their line feeds. -/
def split (text : String) : List String := splitFrom [] text.toList

/-- The text with blanks at its end, up to a width. -/
def padded (width : Nat) (text : String) : String :=
  text ++ String.ofList (List.replicate (width - text.length) ' ')

end MonkeyLang.Lines
