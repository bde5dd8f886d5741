import MonkeyLang.Syntax.Basic

/-!
# Values

What an expression evaluates to. A function value is a closure: the function as written, together
with the scope it was written in. Every evaluation of a function makes a new object, and so does
every error value; these are numbered as they are made. The object `null`, the two booleans and the
builtins are there from the start, and programs share them.

An object has an address, and what it contains does not tell where it stands: another `null` at
another address is a value as well. `Value.same` is the equality that programs see. Strings are
equal by contents and all else by address, so it is right of booleans and `null` only where no
others come up than those that are shared. Numbers have no address here. The operators compare two
numbers before they look at addresses, and nothing else stands where a number does.
-/

namespace MonkeyLang

/-- The name of a scope in a store. -/
abbrev ScopeId := Nat

/-- What tells the objects apart that programs make: they are numbered. -/
abbrev Identity := Nat

/-- The functions that every program finds without defining them. -/
inductive Builtin where
  /-- The number of characters of a string. -/
  | len
deriving DecidableEq, Repr, Inhabited

/-- Where an object stands: one of those that are there from the start, or one that was made. -/
inductive Address where
  | null
  | boolean (value : Bool)
  | builtin (function : Builtin)
  | made (identity : Identity)
deriving DecidableEq, Repr, Inhabited

/-- Contents that stand somewhere. -/
structure Object (α : Type) where
  content : α
  address : Address
deriving DecidableEq, Repr, Inhabited

namespace Object

/-- The boolean that programs share. -/
def boolean (value : Bool) : Object Bool := ⟨value, .boolean value⟩

/-- The builtin that programs share. -/
def builtin (function : Builtin) : Object Builtin := ⟨function, .builtin function⟩

instance : Coe Bool (Object Bool) := ⟨boolean⟩

instance : Coe Builtin (Object Builtin) := ⟨builtin⟩

instance {α : Type} : Coe (Object α) α := ⟨content⟩

end Object

/-- A function together with the scope in which its free names are looked up. -/
structure Closure where
  identity : Identity
  parameters : List String
  body : List Stmt
  scope : ScopeId
deriving Inhabited

/-- Values. Where no other object is named, `null`, a boolean and a builtin are those that programs
share. -/
inductive Value where
  | integer (value : Int64)
  | boolean (value : Object Bool)
  | string (contents : String)
  | null (address : Address := .null)
  | function (closure : Closure)
  | builtin (function : Object Builtin)
  | error (identity : Identity) (message : String)
deriving Inhabited

/-- The types that values are of. -/
inductive ValueType where
  | integer | boolean | string | null | function | builtin | error
deriving DecidableEq, Repr, Inhabited

/-- The name of a type in messages. -/
def ValueType.name : ValueType → String
  | integer => "INTEGER"
  | boolean => "BOOLEAN"
  | string => "STRING"
  | null => "NULL"
  | function => "FUNCTION"
  | builtin => "BUILTIN"
  | error => "ERROR"

namespace Value

/-- The type of a value. -/
def type : Value → ValueType
  | integer _ => .integer
  | boolean _ => .boolean
  | string _ => .string
  | null _ => .null
  | function _ => .function
  | builtin _ => .builtin
  | error _ _ => .error

/-- Does the value count as true in a condition? All do but `null` and `false`. -/
def isTruthy : Value → Bool
  | null _ => false
  | boolean value => value
  | _ => true

/-- Is the value `null`? -/
def isNull : Value → Bool
  | null _ => true
  | _ => false

/-- Is the value an error? -/
def isError : Value → Bool
  | error _ _ => true
  | _ => false

/-- Where the object stands, of the values that are compared by it. -/
def address? : Value → Option Address
  | integer _ | string _ => none
  | null address => some address
  | boolean b => some b.address
  | function f => some (.made f.identity)
  | builtin f => some f.address
  | error identity _ => some (.made identity)

/-- Do the values stand at one address? -/
def sameAddress (v w : Value) : Bool :=
  match v.address?, w.address? with
  | some a, some b => a == b
  | _, _ => false

/-- Are two values equal, as programs see it? Strings are by contents, all else by address. -/
def same : Value → Value → Bool
  | string a, string b => a == b
  | v, w => v.sameAddress w

end Value

namespace Builtin

/-- Every builtin, in the order in which listings show them. -/
def all : List Builtin := [len]

/-- The name under which programs find a builtin. -/
def name : Builtin → String
  | len => "len"

/-- The builtin with a name. -/
def ofName? (name : String) : Option Builtin := all.find? (·.name == name)

end Builtin

end MonkeyLang
