import MonkeyLang.Eval.Interpret
import MonkeyLang.Text.Blank
import MonkeyLang.Value.Render

/-!
# Interactive sessions

A session reads line after line, and all its lines run in one scope: what one line binds the next
one sees. Blanks around a line do not count. A line that begins with a colon may be a command:
`:help`, `:quit` and `:env`, the first two also by their first letter. Any other line is a
program, and the response shows its value, or its syntax errors.
-/

namespace MonkeyLang

/-- What a session answers to a line. -/
inductive Response where
  /-- This text is to be printed. -/
  | print (text : String)
  /-- Nothing is to be printed. -/
  | nothing
  /-- The session is to end. -/
  | leave
deriving DecidableEq, Repr, Inhabited

/-- The state of a session: the store, whose first scope is that of the session. -/
structure Session where
  store : Store
deriving Inhabited

namespace Session

/-- A new session. -/
def initial : Session := ⟨.initial⟩

/-- The scope in which all lines run. -/
def scope : ScopeId := 0

/-- The text that explains the commands. -/
def help : String :=
  "Commands:\n  :help, :h    Show this help\n  :quit, :q    Exit the REPL\n" ++
    "  :env         List bindings of the session"

/-- An entry of the listing of names. -/
def entry (name text : String) : String := name ++ " = " ++ text

/-- The listing of the names that a line may use: first those bound by the session, in order, then
the builtins that are not hidden by one of those. -/
def listing (s : Store) : String :=
  let bindings := s.bindings scope
  "\n".intercalate <|
    bindings.entries.map (fun (name, value) => entry name value.inspect) ++
      (Builtin.all.filter (!bindings.contains ·.name)).map (fun b => entry b.name Value.builtinText)

/-- The text that shows syntax errors. -/
def rejection (errors : List SyntaxError) : String :=
  errors.foldl (fun text e => text ++ "\n\t" ++ e.message) "parser errors:"

/-- The response to what came of a line. -/
def respond : Interpretation → Response
  | .value value => .print value.inspect
  | .rejected errors => .print (rejection errors)

/-- What a session does with a line: its response, and the session afterwards. There is none if the
program of the line nests too deeply. -/
def handle (depth : Nat) (s : Session) (line : String) : Option (Response × Session) :=
  match Blank.trim line with
  | "" => some (.nothing, s)
  | ":quit" | ":q" => some (.leave, s)
  | ":help" | ":h" => some (.print help, s)
  | ":env" => some (.print (listing s.store), s)
  | source =>
    (interpretIn depth source scope s.store).map fun (outcome, store) => (respond outcome, ⟨store⟩)

end Session

end MonkeyLang
