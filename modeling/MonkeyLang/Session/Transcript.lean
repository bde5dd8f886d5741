import MonkeyLang.Session.Basic
import MonkeyLang.Text.Lines

/-!
# What a session prints

A session on a terminal greets, then prints a prompt before every line it reads, and the response
behind it. In a line a backspace takes back what stands in front of it. The session says goodbye
when a line asks for the end or when there are no more lines; in the second case a prompt has been
printed for a line that did not come. `Session.transcript` is all that is printed for given lines.
-/

namespace MonkeyLang

/-- The version of the interpreter. -/
def versionText : String := "0.3.0"

namespace Session

/-- What is printed before the first line is read. -/
def greeting : String :=
  Lines.join ["Monkey REPL v" ++ versionText, "Type :help for help, :quit to exit", ""]

/-- What is printed before every line that is read. -/
def prompt : String := ">> "

/-- What is printed at the end. -/
def farewell : String := Lines.line "Goodbye!"

/-- The line that was meant by what was typed: a backspace takes back the character in front of
it, if there is one. -/
def typed (text : String) : String :=
  String.ofList
    (text.toList.foldl (fun kept c => if c = '\x08' then kept.tail else c :: kept) []).reverse

/-- What is printed from a point on where the given lines are still to be read. There is none if
the program of a line nests too deeply. -/
def transcriptFrom (depth : Nat) : Session → List String → Option String
  | _, [] => some (prompt ++ farewell)
  | s, read :: rest =>
    match s.handle depth (typed read) with
    | none => none
    | some (.leave, _) => some (prompt ++ farewell)
    | some (.nothing, s) => (transcriptFrom depth s rest).map (prompt ++ ·)
    | some (.print text, s) =>
      (transcriptFrom depth s rest).map (prompt ++ Lines.line text ++ ·)

/-- All that a new session prints for the given lines. -/
def transcript (depth : Nat) (lines : List String) : Option String :=
  (transcriptFrom depth initial lines).map (greeting ++ ·)

end Session

end MonkeyLang
