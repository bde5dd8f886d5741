import MonkeyLang.Json.Basic
import MonkeyLang.Syntax.Basic

/-!
# Programs as JSON

Every tree has a JSON form. A node that may be one of several kinds is an object with a single
member, named for the kind; what belongs to the node is a record of named fields. Reading is
lenient in three ways: fields that a record does not have are passed over, the records that make
up a statement, a block, a name or a function may also be given as the array of their fields in
order, and the branch of a conditional that is not taken may be left out. Everything else is
refused, among it an integer that is not a signed 64-bit word.
-/

namespace MonkeyLang

namespace UnaryOperator

/-- The name of an operator in the JSON form. -/
def tag : UnaryOperator → String
  | not => "Bang"
  | negate => "Minus"

/-- The operator of a name. -/
def ofTag? : String → Option UnaryOperator
  | "Bang" => some not
  | "Minus" => some negate
  | _ => none

theorem ofTag?_tag (o : UnaryOperator) : ofTag? o.tag = some o := by cases o <;> rfl

end UnaryOperator

namespace BinaryOperator

/-- The name of an operator in the JSON form. -/
def tag : BinaryOperator → String
  | add => "Plus"
  | subtract => "Minus"
  | multiply => "Asterisk"
  | divide => "Slash"
  | less => "Lt"
  | greater => "Gt"
  | equal => "Eq"
  | notEqual => "NotEq"

/-- The operator of a name. -/
def ofTag? : String → Option BinaryOperator
  | "Plus" => some add
  | "Minus" => some subtract
  | "Asterisk" => some multiply
  | "Slash" => some divide
  | "Lt" => some less
  | "Gt" => some greater
  | "Eq" => some equal
  | "NotEq" => some notEqual
  | _ => none

theorem ofTag?_tag (o : BinaryOperator) : ofTag? o.tag = some o := by cases o <;> rfl

end BinaryOperator

/-! ## Writing -/

/-- The JSON form of a name. -/
def nameJson (name : String) : Json := .obj [("name", .str name)]

/-- The JSON form of a node of the given kind. -/
def nodeJson (kind : String) (body : Json) : Json := .obj [(kind, body)]

/-- The JSON form of a block, given those of its statements. -/
def blockJson (statements : List Json) : Json := .obj [("statements", .arr statements)]

mutual

/-- The JSON form of an expression. -/
def Expr.toJson : Expr → Json
  | .identifier name => nodeJson "Identifier" (nameJson name)
  | .integer value => nodeJson "Integer" (.int value.toInt)
  | .string contents => nodeJson "String" (.str contents)
  | .boolean value => nodeJson "Boolean" (.bool value)
  | .unary operator operand =>
    nodeJson "Prefix" (.obj [("operator", .str operator.tag), ("right", operand.toJson)])
  | .binary operator left right =>
    nodeJson "Infix" (.obj
      [("operator", .str operator.tag), ("left", left.toJson), ("right", right.toJson)])
  | .conditional condition consequence none =>
    nodeJson "If" (.obj
      [("condition", condition.toJson), ("consequence", blockJson (statementsJson consequence)),
        ("alternative", .null)])
  | .conditional condition consequence (some alternative) =>
    nodeJson "If" (.obj
      [("condition", condition.toJson), ("consequence", blockJson (statementsJson consequence)),
        ("alternative", blockJson (statementsJson alternative))])
  | .function parameters body =>
    nodeJson "Function" (.obj
      [("parameters", .arr (parameters.map nameJson)), ("body", blockJson (statementsJson body))])
  | .call callee arguments =>
    nodeJson "Call" (.obj
      [("callee", callee.toJson), ("arguments", .arr (argumentsJson arguments))])

/-- The JSON form of a statement. -/
def Stmt.toJson : Stmt → Json
  | .binding name value =>
    nodeJson "Let" (.obj [("name", nameJson name), ("value", value.toJson)])
  | .leave value => nodeJson "Return" (.obj [("value", value.toJson)])
  | .expression value => nodeJson "Expression" (.obj [("expression", value.toJson)])
  | .block statements => nodeJson "Block" (blockJson (statementsJson statements))

/-- The JSON forms of statements. -/
def statementsJson : List Stmt → List Json
  | [] => []
  | s :: rest => s.toJson :: statementsJson rest

/-- The JSON forms of expressions. -/
def argumentsJson : List Expr → List Json
  | [] => []
  | a :: rest => a.toJson :: argumentsJson rest

end

/-- The JSON form of a program. -/
def Program.toJson (p : Program) : Json := blockJson (statementsJson p.statements)

/-! ## Reading -/

namespace Json

/-- The kind of a node and what belongs to it. -/
def node? : Json → Option (String × Json)
  | obj ((kind, body) :: rest) =>
    if rest.all (·.1 == kind) then some (kind, (lookup kind rest).getD body) else none
  | _ => none

/-- The fields of a record with the given names, in that order. -/
def fields? (names : List String) : Json → Option (List Json)
  | arr items => if items.length = names.length then some items else none
  | obj members => names.mapM (lookup · members)
  | _ => none

/-- The one field of a record. -/
def field? (name : String) (j : Json) : Option Json :=
  match j.fields? [name] with
  | some [value] => some value
  | _ => none

/-- The two fields of a record. -/
def twoFields? (first second : String) (j : Json) : Option (Json × Json) :=
  match j.fields? [first, second] with
  | some [a, b] => some (a, b)
  | _ => none

/-- The name that a record holds. -/
def name? (j : Json) : Option String := do
  let value ← j.field? "name"
  value.str?

/-- The signed 64-bit word of an integer. -/
def int64? (j : Json) : Option Int64 := do
  let value ← j.int?
  if -0x8000000000000000 ≤ value ∧ value ≤ 0x7FFFFFFFFFFFFFFF then some (.ofInt value) else none

/-- The names of a list of records. -/
def names? (j : Json) : Option (List String) := do
  let items ← j.items?
  items.mapM name?

/-- The operator in front of an operand; it may be written as a node without contents. -/
def tag? : Json → Option String
  | str tag => some tag
  | j => do
    let (tag, body) ← j.node?
    match body with
    | null => some tag
    | _ => none

end Json

mutual

/-- Reads an expression, not looking deeper than a bound. -/
def Expr.read? : Nat → Json → Option Expr
  | 0, _ => none
  | n + 1, j => do
    let (kind, body) ← j.node?
    match kind with
    | "Identifier" => return .identifier (← body.name?)
    | "Integer" => return .integer (← body.int64?)
    | "String" => return .string (← body.str?)
    | "Boolean" => return .boolean (← body.bool?)
    | "Prefix" =>
      let operator ← UnaryOperator.ofTag? (← (← body.member? "operator").tag?)
      let operand ← Expr.read? n (← body.member? "right")
      return .unary operator operand
    | "Infix" =>
      let operator ← BinaryOperator.ofTag? (← (← body.member? "operator").tag?)
      let left ← Expr.read? n (← body.member? "left")
      let right ← Expr.read? n (← body.member? "right")
      return .binary operator left right
    | "If" =>
      let condition ← Expr.read? n (← body.member? "condition")
      let consequence ← readBlock? n (← body.member? "consequence")
      match body.member? "alternative" with
      | none => return .conditional condition consequence none
      | some .null => return .conditional condition consequence none
      | some other => return .conditional condition consequence (some (← readBlock? n other))
    | "Function" =>
      let (names, body) ← body.twoFields? "parameters" "body"
      let parameters ← names.names?
      let statements ← readBlock? n body
      return .function parameters statements
    | "Call" =>
      let callee ← Expr.read? n (← body.member? "callee")
      let arguments ← (← (← body.member? "arguments").items?).mapM (Expr.read? n)
      return .call callee arguments
    | _ => none

/-- Reads a statement, not looking deeper than a bound. -/
def Stmt.read? : Nat → Json → Option Stmt
  | 0, _ => none
  | n + 1, j => do
    let (kind, body) ← j.node?
    match kind with
    | "Let" =>
      let (name, value) ← body.twoFields? "name" "value"
      return .binding (← name.name?) (← Expr.read? n value)
    | "Return" => return .leave (← Expr.read? n (← body.field? "value"))
    | "Expression" => return .expression (← Expr.read? n (← body.field? "expression"))
    | "Block" => return .block (← readBlock? n body)
    | _ => none

/-- Reads a block, not looking deeper than a bound. -/
def readBlock? : Nat → Json → Option (List Stmt)
  | 0, _ => none
  | n + 1, j => do
    let statements ← j.field? "statements"
    (← statements.items?).mapM (Stmt.read? n)

end

/-- Reads a program from its JSON form. -/
def Program.ofJson? (j : Json) : Option Program := do
  return ⟨← readBlock? j.depth j⟩

end MonkeyLang
