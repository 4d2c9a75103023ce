import SignalRules.Error
import SignalRules.Text.Blank

/-! # Rule text

Rules are exchanged as text. A rule is a block of `key: value` lines in a fixed order: `template`
and `precondition`, which may be missing, then `condition`, then `action`, which ends the block.
This module holds the records that the text carries and writes them.
-/

namespace SignalRules

structure RuleRecord where
  condition : String
  action : String
  /-- The family of rule templates that the rule belongs to. -/
  template : Option String := none
  /-- When a host should offer the rule; it has no part in when the rule fires. -/
  precondition : Option String := none
  deriving DecidableEq

/-- The fields of a rule block, in their order. -/
inductive RuleField where
  | template
  | precondition
  | condition
  | action
  deriving DecidableEq

namespace RuleField

def key : RuleField → String
  | template => "template"
  | precondition => "precondition"
  | condition => "condition"
  | action => "action"

def ofKey? (key : List Char) : Option RuleField :=
  [template, precondition, condition, action].find? fun field => field.key.toList = key

def line (field : RuleField) (value : List Char) : List Char :=
  field.key.toList ++ ':' :: ' ' :: value ++ ['\n']

/-- The line of a field that is left out when it is missing or blank. -/
def lineIfAny (field : RuleField) (value : Option String) : List Char :=
  match value with
  | none => []
  | some value =>
    let value := Text.trim value.toList
    if value.isEmpty then [] else field.line value

end RuleField

namespace RuleRecord

/-- The block of a rule; values are written trimmed. -/
def block (record : RuleRecord) : List Char :=
  RuleField.template.lineIfAny record.template
    ++ RuleField.precondition.lineIfAny record.precondition
    ++ RuleField.condition.line (Text.trim record.condition.toList)
    ++ RuleField.action.line (Text.trim record.action.toList)

/-- The blocks of all rules, with an empty line between each two of them. -/
def blocks : List RuleRecord → List Char
  | [] => []
  | [record] => record.block
  | record :: records => record.block ++ '\n' :: blocks records

def render (records : List RuleRecord) : String :=
  String.ofList (blocks records)

end RuleRecord

/-! ## Reading it back: policies, reports and errors -/

/-- What to do with a rule whose scripts do not compile. -/
inductive ImportPolicy where
  /-- Refuse the whole text. -/
  | strict
  /-- Leave the rule out and count it. -/
  | skipInvalid
  /-- Take every rule unseen. -/
  | allowErrors
  deriving DecidableEq

namespace ImportPolicy

def name : ImportPolicy → String
  | strict => "strict"
  | skipInvalid => "skip_invalid"
  | allowErrors => "allow_errors"

def ofName? (name : String) : Option ImportPolicy :=
  [strict, skipInvalid, allowErrors].find? fun policy => policy.name = name

end ImportPolicy

/-- The rules of an imported text, and how many were left out. -/
structure ImportReport where
  rules : List RuleRecord
  skipped : Nat
  deriving DecidableEq

inductive ImportCause where
  /-- A block stops before its action. -/
  | unfinished
  | notEntry (line : String)
  | emptyValue (key : String)
  | unknownKey (key : String)
  /-- A field that must stand before one that the block already has. -/
  | misplaced (field : RuleField)
  | missingCondition
  | openComment
  | invalid (field : RuleField) (error : ScriptError)
  /-- An error in the words of a host application. -/
  | reported (message : String)
  deriving DecidableEq

def ImportCause.message : ImportCause → String
  | .unfinished => "Rule ended before its 'action:' line"
  | .notEntry line => s!"Expected 'key: value', got '{line}'"
  | .emptyValue key => s!"Empty '{key}' line"
  | .unknownKey key => s!"Unknown key '{key}'"
  | .misplaced field => s!"Unexpected '{field.key}:' line"
  | .missingCondition => "'action:' without a 'condition:' line"
  | .openComment => "Unterminated block comment"
  | .invalid field error => s!"Invalid {field.key}: {error.display}"
  | .reported message => message

/-- A text that cannot be imported, with the line at fault, counted from one. -/
structure ImportError where
  line : Nat
  cause : ImportCause
  deriving DecidableEq

def ImportError.display (error : ImportError) : String :=
  s!"Import error at line {error.line}: {error.cause.message}"

end SignalRules
