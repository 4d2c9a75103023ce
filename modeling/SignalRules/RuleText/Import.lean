import SignalRules.RuleText.Scan
import SignalRules.Scope

/-! # Importing rule text

`RuleText.read` scans a text and handles rules whose scripts do not compile by a policy. Faults in
the structure of the text fail the import under every policy.
-/

namespace SignalRules

namespace RuleText

/-- Compile the scripts of a rule: precondition, condition, action. The error names the line of the
first that does not compile. -/
def Located.check (scope : Scope) (rule : Located) : Except ImportError Unit := do
  match rule.record.precondition, rule.preconditionLine with
  | some precondition, some line =>
    match scope.parseCondition precondition with
    | .ok _ => pure ()
    | .error e => throw ⟨line, .invalid .precondition e⟩
  | _, _ => pure ()
  match scope.parseCondition rule.record.condition with
  | .ok _ => pure ()
  | .error e => throw ⟨rule.conditionLine, .invalid .condition e⟩
  match scope.parseCall rule.record.action with
  | .ok _ => pure ()
  | .error e => throw ⟨rule.actionLine, .invalid .action e⟩

/-- The rules that pass a check, up to the first that does not. -/
def checkAll (check : Located → Except ImportError Unit) :
    List Located → Except ImportError (List RuleRecord)
  | [] => .ok []
  | rule :: rules =>
    match check rule with
    | .error e => .error e
    | .ok _ => (checkAll check rules).map fun records => rule.record :: records

/-- Select rules by a policy. Without a scope nothing is compiled, so nothing is refused. -/
def select (scope : Option Scope) (policy : ImportPolicy) (rules : List Located) :
    Except ImportError ImportReport :=
  match scope, policy with
  | some scope, .strict => (checkAll (Located.check scope) rules).map fun records => ⟨records, 0⟩
  | some scope, .skipInvalid =>
    let valid := rules.filter fun rule => (rule.check scope).isOk
    .ok ⟨valid.map Located.record, rules.length - valid.length⟩
  | _, _ => .ok ⟨rules.map Located.record, 0⟩

/-- Import a text. The rules in front of a structural fault come first, so a refused one of them
is reported rather than the fault. -/
def read (scope : Option Scope) (policy : ImportPolicy) (text : String) :
    Except ImportError ImportReport :=
  let (rules, fault) := scan text
  match select scope policy rules with
  | .error e => .error e
  | .ok report =>
    match fault with
    | some e => .error e
    | none => .ok report

end RuleText

end SignalRules
