/-!
# JSON values

A JSON value as data. Numbers that are written as integers are integers; any other number keeps
the text it was written as, since nothing here computes with it. An object is the list of its
members in order, and of several members with one name the last one counts.
-/

namespace MonkeyLang

/-- A JSON value. -/
inductive Json where
  | null
  | bool (value : Bool)
  | int (value : Int)
  | real (text : String)
  | str (value : String)
  | arr (items : List Json)
  | obj (members : List (String × Json))
deriving Inhabited

namespace Json

/-- The value of a member, the last of its name. -/
def lookup (name : String) : List (String × Json) → Option Json
  | [] => none
  | (key, value) :: rest =>
    match lookup name rest with
    | some later => some later
    | none => if key = name then some value else none

/-- The member of an object. -/
def member? (name : String) : Json → Option Json
  | obj members => lookup name members
  | _ => none

/-- The contents of a string. -/
def str? : Json → Option String
  | str value => some value
  | _ => none

/-- The value of an integer. -/
def int? : Json → Option Int
  | int value => some value
  | _ => none

/-- The value of an integer that is not negative. -/
def nat? : Json → Option Nat
  | int (.ofNat value) => some value
  | _ => none

/-- The truth value. -/
def bool? : Json → Option Bool
  | bool value => some value
  | _ => none

/-- The items of an array. -/
def items? : Json → Option (List Json)
  | arr items => some items
  | _ => none

mutual

/-- How many arrays and objects are nested in each other, counting a plain value as one. -/
def depth : Json → Nat
  | arr items => depthItems items + 1
  | obj members => depthMembers members + 1
  | _ => 1

/-- The greatest depth of some values. -/
def depthItems : List Json → Nat
  | [] => 0
  | item :: rest => max item.depth (depthItems rest)

/-- The greatest depth of the values of some members. -/
def depthMembers : List (String × Json) → Nat
  | [] => 0
  | (_, value) :: rest => max value.depth (depthMembers rest)

end

end Json

end MonkeyLang
