import MonkeyLang.Eval.Fault

/-!
# What operators and builtins compute

Arithmetic is that of signed 64-bit words: it wraps around, and division cuts off towards zero.
Equality applies to all values. Every other operator applies to two integers, `+` to two strings
as well; operands it does not apply to are a fault, which tells operands of different types from
operands of one type.
-/

namespace MonkeyLang

/-- A unary operator at a value. Only `false` and `null` are negated to `true`. -/
def UnaryOperator.apply : UnaryOperator → Value → Except Fault Value
  | not, .boolean value => .ok (.boolean !value.content)
  | not, .null _ => .ok (.boolean true)
  | not, _ => .ok (.boolean false)
  | negate, .integer value => .ok (.integer (-value))
  | negate, v => .error (.noUnary negate v.type)

namespace BinaryOperator

/-- A binary operator at two integers. -/
def applyIntegers (a b : Int64) : BinaryOperator → Except Fault Value
  | add => .ok (.integer (a + b))
  | subtract => .ok (.integer (a - b))
  | multiply => .ok (.integer (a * b))
  | divide => if b = 0 then .error .divisionByZero else .ok (.integer (a / b))
  | less => .ok (.boolean (decide (a < b)))
  | greater => .ok (.boolean (decide (b < a)))
  | equal => .ok (.boolean (a == b))
  | notEqual => .ok (.boolean (a != b))

/-- A binary operator at two values. -/
def apply (operator : BinaryOperator) (left right : Value) : Except Fault Value :=
  match operator, left, right with
  | operator, .integer a, .integer b => operator.applyIntegers a b
  | equal, a, b => .ok (.boolean (a.same b))
  | notEqual, a, b => .ok (.boolean !(a.same b))
  | add, .string a, .string b => .ok (.string (a ++ b))
  | operator, a, b =>
    if a.type = b.type then .error (.noBinary a.type operator b.type)
    else .error (.mismatch a.type operator b.type)

end BinaryOperator

/-- A builtin at its arguments. -/
def Builtin.call : Builtin → List Value → Except Fault Value
  | len, [.string contents] => .ok (.integer (.ofNat contents.length))
  | len, [v] => .error (.argumentType len v.type)
  | len, values => .error (.argumentCount values.length 1)

end MonkeyLang
