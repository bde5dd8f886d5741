import MonkeyLang.Value.Basic

/-!
# Faults

A `Fault` is what stops an evaluation that cannot go on: a name without a value, an operator that
does not apply to its operands, a call of something that is no function or with arguments it does
not take, a division by zero. The texts a reader sees are computed from it.
-/

namespace MonkeyLang

/-- Why an evaluation cannot go on. -/
inductive Fault where
  /-- The name is bound nowhere. -/
  | unbound (name : String)
  /-- The operands are of different types, and the operator does not apply to both. -/
  | mismatch (left : ValueType) (operator : BinaryOperator) (right : ValueType)
  /-- The operator does not apply to operands of this type. -/
  | noBinary (left : ValueType) (operator : BinaryOperator) (right : ValueType)
  /-- The operator does not apply to an operand of this type. -/
  | noUnary (operator : UnaryOperator) (operand : ValueType)
  /-- A value of this type cannot be called. -/
  | notCallable (type : ValueType)
  | divisionByZero
  /-- A builtin was given the wrong number of arguments. -/
  | argumentCount (given expected : Nat)
  /-- A builtin was given an argument of a type it does not take. -/
  | argumentType (builtin : Builtin) (type : ValueType)
deriving DecidableEq, Repr, Inhabited

namespace Fault

/-- The sentence that says what went wrong. -/
def message : Fault → String
  | unbound name => "identifier not found: " ++ name
  | mismatch left operator right =>
    "type mismatch: " ++ left.name ++ " " ++ operator.sign ++ " " ++ right.name
  | noBinary left operator right =>
    "unknown operator: " ++ left.name ++ " " ++ operator.sign ++ " " ++ right.name
  | noUnary operator operand => "unknown operator: " ++ operator.sign ++ operand.name
  | notCallable type => "not a function: " ++ type.name
  | divisionByZero => "division by zero"
  | argumentCount given expected =>
    "wrong number of arguments. got=" ++ toString given ++ ", want=" ++ toString expected
  | argumentType builtin type =>
    "argument to `" ++ builtin.name ++ "` not supported, got " ++ type.name

/-- The name under which the fault is documented. -/
def code : Fault → String
  | unbound _ => "eval::identifier_not_found"
  | mismatch _ _ _ => "eval::type_mismatch"
  | noBinary _ _ _ => "eval::unknown_operator"
  | noUnary _ _ => "eval::unknown_operator"
  | notCallable _ => "eval::not_a_function"
  | divisionByZero => "eval::division_by_zero"
  | argumentCount _ _ => "eval::arity"
  | argumentType _ _ => "eval::unsupported_argument"

/-- Advice that goes with the fault. -/
def help? : Fault → Option String
  | unbound _ => some "bind the name with `let` before using it"
  | _ => none

end Fault

end MonkeyLang
