import SignalRules.Error

/-! # Operations on values

Access, comparison and arithmetic. Each operation needs values of certain types and refuses
others; numbers that leave the range of `Fixed` are an error.
-/

namespace SignalRules

namespace Value

def asNumber : Value → Except ScriptError Fixed
  | .number n => .ok n
  | .string s => .error (.evaluation (.numberExpected s))

def asInt (v : Value) : Except ScriptError Int :=
  v.asNumber.map Fixed.toInt

def asString : Value → Except ScriptError String
  | .string s => .ok s
  | .number n => .error (.evaluation (.stringExpected n))

/-- A number is true unless it is zero. -/
def isTrue (v : Value) : Except ScriptError Bool :=
  v.asNumber.map fun n => n.raw != 0

/-- Numbers are ordered by size, texts by their characters. -/
def cmp : Value → Value → Except ScriptError Ordering
  | .number a, .number b => .ok (a.cmp b)
  | .string a, .string b => .ok (compare a b)
  | a, b => .error (.evaluation (.incomparable a.type b.type))

end Value

namespace Arithmetic

/-- The operation on numbers; division by zero is its only error besides overflow. -/
def onNumbers (op : Arithmetic) (a b : Fixed) : Except ScriptError Fixed :=
  let fit : Option Fixed → Except ScriptError Fixed
    | some n => .ok n
    | none => .error (.evaluation (.overflow op))
  match op with
  | .add => fit (a.add? b)
  | .sub => fit (a.sub? b)
  | .mul => fit (a.mul? b)
  | .div => if b.raw = 0 then .error (.evaluation .divisionByZero) else fit (a.div? b)

def apply (op : Arithmetic) : Value → Value → Except ScriptError Value
  | .number a, .number b => (op.onNumbers a b).map Value.number
  | a, b => .error (.evaluation (.numbersExpected op a.type b.type))

end Arithmetic

namespace Operator

/-- Apply an operator to its operand values. A connective looks at every operand's truth value,
from left to right, before it answers; a count the operator does not admit is an error. -/
def apply (op : Operator) (values : List Value) : Except ScriptError Value :=
  if op.arity.Admits values.length then
    match op, values with
    | .comparison c, [a, b] => (a.cmp b).map fun o => Value.ofBool (c.holds o)
    | .connective .and, _ => (values.mapM Value.isTrue).map fun ts => Value.ofBool (ts.all id)
    | .connective .or, _ => (values.mapM Value.isTrue).map fun ts => Value.ofBool (ts.any id)
    | .not, [a] => a.isTrue.map fun t => Value.ofBool !t
    | .arithmetic o, [a, b] => o.apply a b
    | _, _ => .error (.evaluation (.operandCount op values.length))
  else .error (.evaluation (.operandCount op values.length))

end Operator

end SignalRules
