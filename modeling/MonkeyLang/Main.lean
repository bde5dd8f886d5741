import MonkeyLang.CommandLine.Answer

/-!
# The program

The command line of the interpreter: it reads the file that the arguments name, and prints the
answer. A session is held line by line.
-/

namespace MonkeyLang

/-- The exit status when a program nests too deeply for its evaluation to end. -/
def endlessStatus : UInt32 := 134

/-- Prints a text at once. -/
def printNow (text : String) : IO Unit := do
  let output ← IO.getStdout
  output.putStr text
  output.flush

/-- Reads lines and prints the responses until the session ends. -/
partial def converse (s : Session) : IO UInt32 := do
  printNow Session.prompt
  let text ← (← IO.getStdin).getLine
  if text.isEmpty then
    printNow Session.farewell
    return 0
  match s.handle defaultDepth (Session.typed text) with
  | none => return endlessStatus
  | some (.leave, _) =>
    printNow Session.farewell
    return 0
  | some (.nothing, s) => converse s
  | some (.print response, s) =>
    printNow (Lines.line response)
    converse s

/-- The contents of a file, if it can be read. -/
def readFile? (path : String) : IO (Option ByteArray) :=
  try
    return some (← IO.FS.readBinFile path)
  catch _ => return none

/-- Carries out a command. -/
def carryOut (command : Command) : IO UInt32 := do
  if command = .converse then
    printNow Session.greeting
    converse .initial
  else
    let file ← match command.file? with
      | some path => readFile? path
      | none => pure none
    match command.answer defaultDepth file "" with
    | none => return endlessStatus
    | some answer =>
      printNow answer.output
      return answer.status.toUInt32

end MonkeyLang

/-- Carries out what the arguments ask for. -/
def main (arguments : List String) : IO UInt32 :=
  match MonkeyLang.Command.ofArguments? arguments with
  | some command => MonkeyLang.carryOut command
  | none => return MonkeyLang.Answer.misuse.status.toUInt32
