import MonkeyLang.Syntax.Error

/-!
# Reports of syntax errors

A `Report` gathers the syntax errors of one file, in the order in which they are added. A
`Diagnostic` is one of them made ready for a reader: all its texts, and the place in the file
that its label belongs to.
-/

namespace MonkeyLang

/-- A syntax error made ready for a reader. -/
structure Diagnostic where
  message : String
  code : String
  help? : Option String
  label : String
  span : Span
  fileName : String
deriving DecidableEq, Repr, Inhabited

/-- The syntax errors found in a file so far. -/
structure Report where
  fileName : String
  content : String
  errors : List SyntaxError
deriving DecidableEq, Repr, Inhabited

namespace Report

/-- The report on a file without errors, by its name and content. -/
def ofFile (fileName content : String) : Report := ⟨fileName, content, []⟩

/-- The report with more errors at its end. -/
def add (r : Report) (errors : List SyntaxError) : Report := { r with errors := r.errors ++ errors }

/-- Is there an error? -/
def hasErrors (r : Report) : Bool := !r.errors.isEmpty

/-- The number of errors. -/
def count (r : Report) : Nat := r.errors.length

/-- The errors made ready for a reader. -/
def diagnostics (r : Report) : List Diagnostic :=
  r.errors.map fun e =>
    ⟨e.cause.message, e.cause.code, e.cause.help?, e.cause.label, e.span, r.fileName⟩

end Report

end MonkeyLang
