import SignalRules.RuleText
import SignalRules.Scope

/-! # Rules

A rule belongs to a host and says: if this condition turns true, do that. It listens to the signals
in its condition.
-/

namespace SignalRules

inductive RuleState where
  /-- Compiled, but not listening. -/
  | inactive
  | active
  | failed
  /-- Its action was to run once, and has run. -/
  | completed
  deriving DecidableEq

def RuleState.name : RuleState → String
  | inactive => "Inactive"
  | active => "Active"
  | failed => "Failed"
  | completed => "Completed"

structure Rule where
  host : HostId
  condition : Expr
  action : Call
  template : Option String := none
  /-- Kept for templates; it must compile but is never evaluated. -/
  precondition : Option String := none
  state : RuleState := .inactive
  /-- Whether the condition was true when it was last evaluated. -/
  held : Bool := false
  /-- The error that broke the rule last. -/
  error : Option ScriptError := none

namespace Rule

/-- A rule over compiled parts; the condition must be a number. -/
def ofParts (host : HostId) (condition : Expr) (action : Call) : Except ScriptError Rule :=
  if condition.type? = some .number then .ok { host, condition, action }
  else .error (.compile (.ruleCondition condition.toScript))

/-- Compile a record: precondition, condition, action. -/
def ofRecord (scope : Scope) (record : RuleRecord) : Except ScriptError Rule := do
  match record.precondition with
  | some precondition => discard (scope.parseCondition precondition)
  | none => pure ()
  let condition ← scope.parseCondition record.condition
  let action ← scope.parseCall record.action
  let rule ← ofParts scope.host condition action
  return { rule with template := record.template, precondition := record.precondition }

def toRecord (rule : Rule) : RuleRecord where
  condition := rule.condition.toScript
  action := rule.action.toExpr.toScript
  template := rule.template
  precondition := rule.precondition

def describe (rule : Rule) : String :=
  "If " ++ Expr.describe rule.condition ++ " then " ++ Expr.describe rule.action.toExpr

def signals (rule : Rule) : List Ref :=
  rule.condition.signalNames.map fun name => ⟨name, rule.host⟩

/-- What is installed for the rule while it is active. -/
def actionRef (rule : Rule) : Ref :=
  ⟨rule.action.binding.ref.name, rule.host⟩

end Rule

end SignalRules
