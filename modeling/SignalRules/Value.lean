import SignalRules.Fixed

/-! # Values

What scripts compute with: numbers and texts. Neither is ever converted to the other.
-/

namespace SignalRules

inductive ValueType where
  | number
  | string
  deriving DecidableEq

def ValueType.name : ValueType → String
  | .number => "number"
  | .string => "string"

inductive Value where
  | number (n : Fixed)
  | string (s : String)
  deriving DecidableEq

namespace Value

def type : Value → ValueType
  | .number _ => .number
  | .string _ => .string

def ofBool (b : Bool) : Value :=
  .number (.ofBool b)

/-- The value as scripts write it: hundredths, or a text in single quotes. -/
def toLiteral : Value → String
  | .number n => n.toLiteral
  | .string s => "'" ++ s ++ "'"

/-- The value tagged with its type. -/
def display : Value → String
  | .number n => "Number:" ++ n.toLiteral
  | .string s => "String:" ++ s

end Value

end SignalRules
