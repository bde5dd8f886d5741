import MonkeyLang.CommandLine.Command
import MonkeyLang.Json.Printer
import MonkeyLang.Session.Transcript
import MonkeyLang.Syntax.Json

/-!
# What commands answer

A command answers with an exit status and the text it prints. The status is 0 if all went well, 1
if a file cannot be read or a program has syntax errors or ends in an error, and 2 if the
arguments cannot be understood; on failure nothing is printed. A program whose value is `null`
prints nothing.
-/

namespace MonkeyLang

/-- The exit status of a command and what it prints. -/
structure Answer where
  status : Nat
  output : String
deriving DecidableEq, Repr, Inhabited

namespace Answer

/-- All went well, and this is printed. -/
def success (output : String) : Answer := ⟨0, output⟩

/-- The command failed. -/
def failure : Answer := ⟨1, ""⟩

/-- The arguments cannot be understood. -/
def misuse : Answer := ⟨2, ""⟩

end Answer

namespace Command

/-- The text that explains the arguments. -/
def usageText : String :=
  Lines.join ["Tree-walking interpreter for the Monkey language", "",
    "Usage: monkey [OPTIONS] <COMMAND>", "", "Commands:",
    "  run     Run a Monkey source file",
    "  eval    Evaluate a source string given on the command line",
    "  repl    Start the interactive REPL",
    "  parse   Parse a file and print the program back as source",
    "  tokens  Print the token stream of a file",
    "  info    Show information about the interpreter",
    "  help    Print this message or the help of the given subcommand(s)", "", "Options:",
    "  -v, --verbose  Enable verbose output",
    "  -h, --help     Print help",
    "  -V, --version  Print version"]

/-- The text that tells what the interpreter can do. -/
def infoText : String :=
  Lines.join (["Monkey Interpreter", "Version: " ++ versionText, "", "Language:",
    "  - Integers, booleans, strings",
    "  - let / return statements, if / else expressions",
    "  - First-class functions with closures", "", "Builtins:"] ++
    Builtin.all.map ("  - " ++ ·.name))

/-- The line of a listing that shows a token: the name of its kind and its literal. -/
def tokenLine (t : Token) : String :=
  Lines.padded 8 t.kind.name ++ " " ++ Escaped.render t.literal

/-- The listing of the tokens of a source, the end mark included. -/
def tokenListing (source : String) : String := Lines.join ((Token.stream source).map tokenLine)

/-- The answer to running a program; there is none if it nests too deeply. -/
def runSource (depth : Nat) (source : String) : Option Answer :=
  (interpret depth source).map fun (outcome, _) =>
    match outcome with
    | .rejected _ => .failure
    | .value (.error _ _) => .failure
    | .value (.null _) => .success ""
    | .value value => .success (Lines.line value.inspect)

/-- The answer to printing a program. -/
def printSource (json : Bool) (source : String) : Answer :=
  let parsed := parse source
  if parsed.errors.isEmpty then
    .success (Lines.line (if json then parsed.program.toJson.pretty else parsed.program.render))
  else .failure

/-- What is answered on the contents of a file, if it can be read and is text in UTF-8. -/
def onSource (file : Option ByteArray) (answer : String → Option Answer) : Option Answer :=
  match file.bind String.fromUTF8? with
  | some source => answer source
  | none => some .failure

/-- What a command answers, given the contents of the file it reads, if that can be read, and the
input of a session. There is no answer if a program nests too deeply. -/
def answer (depth : Nat) (file : Option ByteArray) (input : String) : Command → Option Answer
  | run _ => onSource file (runSource depth)
  | evaluate source => runSource depth source
  | converse => (Session.transcript depth (Lines.split input)).map .success
  | print _ json => onSource file fun source => some (printSource json source)
  | tokens _ => onSource file fun source => some (.success (tokenListing source))
  | info => some (.success infoText)
  | version => some (.success (Lines.line ("monkey " ++ versionText)))
  | help => some (.success usageText)

/-- What is answered to arguments, given how files are read and the input of a session. -/
def answerArguments (depth : Nat) (readFile : String → Option ByteArray) (input : String)
    (arguments : List String) : Option Answer :=
  match ofArguments? arguments with
  | some command => command.answer depth (command.file?.bind readFile) input
  | none => some .misuse

end Command

end MonkeyLang
