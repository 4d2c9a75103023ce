import SignalRules.Tree
import SignalRules.Value.Arithmetic

/-! # Definitions

How providers declare their signals and actions: the type of each value, how it is shown, which
values are allowed, and what a deprecated constant has become.
-/

namespace SignalRules

/-- A text that a value may take, and the text shown for it. -/
structure ValueOption where
  value : String
  text : String
  deriving DecidableEq

structure ValueDef where
  type : ValueType
  /-- How the value is shown, unless in the usual way. -/
  formatter : Option (Value → String) := none
  validator : Option (Value → Except ScriptError Unit) := none
  /-- A check on what is written as an argument, at the time of compilation. -/
  argumentCheck : Option (Term → Except ScriptError Unit) := none
  /-- The texts that a constant may be, if not all. -/
  options : Option (List ValueOption) := none
  /-- Deprecated constants, each with its replacement. -/
  replacements : Option (List (String × String)) := none

namespace ValueDef

def number : ValueDef := { type := .number }

def string : ValueDef := { type := .string }

def inRange (least most : Fixed) (value : Value) : Except ScriptError Unit :=
  match value.asNumber with
  | .error e => .error e
  | .ok n =>
    if n.raw < least.raw ∨ most.raw < n.raw then .error (.range n least most) else .ok ()

/-- The replacement of a deprecated constant; of two for the same text the later counts. -/
def replacement? (d : ValueDef) (text : String) : Option String :=
  (d.replacements.getD []).reverse.lookup text

def allows (d : ValueDef) (text : String) : Bool :=
  match d.options with
  | some options => options.any fun o => o.value = text
  | none => true

def validate (d : ValueDef) (value : Value) : Except ScriptError Unit :=
  if value.type = d.type then
    match d.validator with
    | some check => check value
    | none => .ok ()
  else .error (.evaluation (.valueType d.type value.type))

/-- The value as it is shown: by the formatter if there is one, else a number in decimal notation
and a text by its option, if it is one. -/
def format (d : ValueDef) (value : Value) : String :=
  match d.formatter with
  | some show? => show? value
  | none =>
    match value with
    | .number n => n.toDecimal
    | .string s =>
      match (d.options.getD []).find? fun o => o.value = s with
      | some option => option.text
      | none => s

end ValueDef

/-- The declaration of a signal: its full name, the name shown, and its values. -/
structure SignalDef where
  name : String
  display : String
  result : ValueDef

structure ActionDef where
  name : String
  display : String
  arguments : List ValueDef

end SignalRules
