/-!
# The commands of the command line

`Command.ofArguments?` says what a list of arguments asks for, or that it asks for nothing that
exists. The flag for verbose output may stand before or behind the name of a command, once in
either place, and short flags may be written together. Arguments are looked at from left to
right, and the first one that asks for help or for the version, or that cannot stand where it
stands, decides. Behind `--` nothing is a flag any more.
-/

namespace MonkeyLang

/-- What the command line can be asked to do. -/
inductive Command where
  /-- Run the program in a file. -/
  | run (file : String)
  /-- Run a program given as an argument. -/
  | evaluate (source : String)
  /-- Hold an interactive session. -/
  | converse
  /-- Print the program in a file, as source text or as JSON. -/
  | print (file : String) (json : Bool)
  /-- List the tokens of a file. -/
  | tokens (file : String)
  /-- Tell what the interpreter can do. -/
  | info
  | version
  | help
deriving DecidableEq, Repr, Inhabited

namespace Command

/-- The commands that have a name. -/
inductive Name where
  | run | eval | repl | parse | tokens | info
deriving DecidableEq, Repr, Inhabited

/-- The command with a name. -/
def Name.ofString? : String → Option Name
  | "run" => some .run
  | "eval" => some .eval
  | "repl" => some .repl
  | "parse" => some .parse
  | "tokens" => some .tokens
  | "info" => some .info
  | _ => none

/-- Does the command need an argument that is no flag? -/
def Name.takesArgument : Name → Bool
  | repl | info => false
  | _ => true

/-- The flags there are. -/
inductive Flag where
  | verbose | json | help | version
deriving DecidableEq, Repr, Inhabited

/-- The flag with a letter. -/
def Flag.ofLetter? : Char → Option Flag
  | 'v' => some verbose
  | 'h' => some help
  | 'V' => some version
  | _ => none

/-- The flag with a name. -/
def Flag.ofName? : String → Option Flag
  | "--verbose" => some verbose
  | "--json" => some json
  | "--help" => some help
  | "--version" => some version
  | _ => none

/-- What an argument is if `--` does not stand in front of it: flags, none of them standing for
one that does not exist, the mark behind which there are no more flags, or a plain argument. -/
inductive Argument where
  | flags (flags : List (Option Flag))
  | separator
  | plain (text : String)

/-- What an argument is. -/
def Argument.ofString (argument : String) : Argument :=
  match argument.toList with
  | ['-', '-'] => .separator
  | '-' :: '-' :: _ => .flags [Flag.ofName? argument]
  | '-' :: letter :: letters => .flags ((letter :: letters).map Flag.ofLetter?)
  | _ => .plain argument

/-- What has been said behind the name of a command: the flags, and the plain argument. -/
structure Given where
  verbose : Bool
  json : Bool
  argument? : Option String
deriving Inhabited

/-- How reading goes on behind something that was looked at. -/
inductive Step (α : Type) where
  | next (state : α)
  | ask (command : Command)
  | refuse

/-- Flags behind the name of a command. -/
def takeFlags (name : Name) : List (Option Flag) → Given → Step Given
  | [], given => .next given
  | flag :: rest, given =>
    match flag with
    | some .verbose =>
      if given.verbose then .refuse else takeFlags name rest { given with verbose := true }
    | some .json =>
      if name = .parse ∧ ¬ given.json then takeFlags name rest { given with json := true }
      else .refuse
    | some .help => .ask .help
    | _ => .refuse

/-- A plain argument behind the name of a command. -/
def takePlain (name : Name) (text : String) (given : Given) : Step Given :=
  if name.takesArgument ∧ given.argument?.isNone then .next { given with argument? := some text }
  else .refuse

/-- The command that was asked for, when all has been said. -/
def conclude (name : Name) (given : Given) : Option Command :=
  match name, given.argument? with
  | .run, some file => some (.run file)
  | .eval, some source => some (.evaluate source)
  | .parse, some file => some (.print file given.json)
  | .tokens, some file => some (.tokens file)
  | .repl, _ => some .converse
  | .info, _ => some .info
  | _, none => none

/-- Arguments behind the name of a command and the mark behind which there are no flags. -/
def afterSeparator (name : Name) : List String → Given → Option Command
  | [], given => conclude name given
  | text :: rest, given =>
    match takePlain name text given with
    | .next given => afterSeparator name rest given
    | .ask command => some command
    | .refuse => none

/-- Arguments behind the name of a command. -/
def afterName (name : Name) : List String → Given → Option Command
  | [], given => conclude name given
  | argument :: rest, given =>
    match Argument.ofString argument with
    | .separator => afterSeparator name rest given
    | .flags flags =>
      match takeFlags name flags given with
      | .next given => afterName name rest given
      | .ask command => some command
      | .refuse => none
    | .plain text =>
      match takePlain name text given with
      | .next given => afterName name rest given
      | .ask command => some command
      | .refuse => none

/-- Flags in front of the name of a command; the state is whether verbose output is asked for. -/
def takeLeadingFlags : List (Option Flag) → Bool → Step Bool
  | [], verbose => .next verbose
  | flag :: rest, verbose =>
    match flag with
    | some .verbose => if verbose then .refuse else takeLeadingFlags rest true
    | some .help => .ask .help
    | some .version => .ask .version
    | _ => .refuse

/-- Help on a command, or on all of them. -/
def helpOn : List String → Option Command
  | [] => some .help
  | [name] => if name = "help" ∨ (Name.ofString? name).isSome then some .help else none
  | _ => none

/-- Arguments up to the name of a command. -/
def beforeName : List String → Bool → Option Command
  | [], _ => none
  | argument :: rest, verbose =>
    match Argument.ofString argument with
    | .separator => none
    | .flags flags =>
      match takeLeadingFlags flags verbose with
      | .next verbose => beforeName rest verbose
      | .ask command => some command
      | .refuse => none
    | .plain text =>
      if text = "help" then helpOn rest
      else (Name.ofString? text).bind fun name => afterName name rest ⟨false, false, none⟩

/-- What the arguments ask for; nothing if they cannot be understood. -/
def ofArguments? (arguments : List String) : Option Command := beforeName arguments false

/-- The file that a command reads. -/
def file? : Command → Option String
  | run file => some file
  | print file _ => some file
  | tokens file => some file
  | _ => none

end Command

end MonkeyLang
