/-!
# Kinds of token

A `Kind` says which terminal symbol of the grammar a token is. The keywords are `fn`, `let`,
`true`, `false`, `if`, `else` and `return`; a word that is none of them is an identifier, and a
character that begins no token is a token of kind `illegal` by itself. `Kind.endOfInput` marks
the end of a source.
-/

namespace MonkeyLang

/-- The terminal symbols of the grammar. -/
inductive Kind where
  | function | letWord | trueWord | falseWord | ifWord | elseWord | returnWord
  | identifier | integer | string
  | assign | plus | minus | bang | asterisk | slash | less | greater | equal | notEqual
  | comma | semicolon | leftParen | rightParen | leftBrace | rightBrace
  | illegal | endOfInput
deriving DecidableEq, Repr, Inhabited

namespace Kind

/-- Every kind, in the order in which listings show them. -/
def all : List Kind :=
  [function, letWord, trueWord, falseWord, ifWord, elseWord, returnWord, identifier, integer,
    string, assign, plus, minus, bang, asterisk, slash, less, greater, equal, notEqual, comma,
    semicolon, leftParen, rightParen, leftBrace, rightBrace, illegal, endOfInput]

/-- The name of a kind in messages: signs name themselves, all else is in capitals. -/
def name : Kind → String
  | function => "FUNCTION"
  | letWord => "LET"
  | trueWord => "TRUE"
  | falseWord => "FALSE"
  | ifWord => "IF"
  | elseWord => "ELSE"
  | returnWord => "RETURN"
  | identifier => "IDENT"
  | integer => "INT"
  | string => "STRING"
  | assign => "="
  | plus => "+"
  | minus => "-"
  | bang => "!"
  | asterisk => "*"
  | slash => "/"
  | less => "<"
  | greater => ">"
  | equal => "=="
  | notEqual => "!="
  | comma => ","
  | semicolon => ";"
  | leftParen => "("
  | rightParen => ")"
  | leftBrace => "\x7b"
  | rightBrace => "\x7d"
  | illegal => "ILLEGAL"
  | endOfInput => "EOF"

/-- The name of a kind as a plain word, for data in which signs cannot stand. -/
def word : Kind → String
  | function => "Function"
  | letWord => "Let"
  | trueWord => "True"
  | falseWord => "False"
  | ifWord => "If"
  | elseWord => "Else"
  | returnWord => "Return"
  | identifier => "Ident"
  | integer => "Int"
  | string => "String"
  | assign => "Assign"
  | plus => "Plus"
  | minus => "Minus"
  | bang => "Bang"
  | asterisk => "Asterisk"
  | slash => "Slash"
  | less => "Lt"
  | greater => "Gt"
  | equal => "Eq"
  | notEqual => "NotEq"
  | comma => "Comma"
  | semicolon => "Semicolon"
  | leftParen => "LParen"
  | rightParen => "RParen"
  | leftBrace => "LBrace"
  | rightBrace => "RBrace"
  | illegal => "Illegal"
  | endOfInput => "Eof"

/-- The kind with the given name. -/
def ofName? (name : String) : Option Kind := all.find? (·.name == name)

/-- Is the kind a reserved word? -/
def isKeyword : Kind → Bool
  | function | letWord | trueWord | falseWord | ifWord | elseWord | returnWord => true
  | _ => false

/-- Does the kind stand for a value written out? -/
def isLiteral : Kind → Bool
  | integer | string | trueWord | falseWord => true
  | _ => false

/-- Is the kind a sign that stands between or before operands? The `=` of a binding is one too. -/
def isOperator : Kind → Bool
  | assign | plus | minus | bang | asterisk | slash | less | greater | equal | notEqual => true
  | _ => false

/-- The kind of a word: a keyword if it is spelt like one, an identifier otherwise. -/
def ofWord : List Char → Kind
  | ['f', 'n'] => function
  | ['l', 'e', 't'] => letWord
  | ['t', 'r', 'u', 'e'] => trueWord
  | ['f', 'a', 'l', 's', 'e'] => falseWord
  | ['i', 'f'] => ifWord
  | ['e', 'l', 's', 'e'] => elseWord
  | ['r', 'e', 't', 'u', 'r', 'n'] => returnWord
  | _ => identifier

/-- The kind of a character that is a token by itself. -/
def ofSign : Char → Kind
  | '=' => assign
  | '+' => plus
  | '-' => minus
  | '!' => bang
  | '*' => asterisk
  | '/' => slash
  | '<' => less
  | '>' => greater
  | ',' => comma
  | ';' => semicolon
  | '(' => leftParen
  | ')' => rightParen
  | '{' => leftBrace
  | '}' => rightBrace
  | _ => illegal

/-- A kind is found by its name. -/
theorem ofName?_name (k : Kind) : ofName? k.name = some k := by cases k <;> decide

end Kind

end MonkeyLang
