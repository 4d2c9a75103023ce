import SignalRules.Definition
import SignalRules.Outcome

/-! # Expressions

An `Expr` is a tree whose signals and actions carry the definitions that they were compiled
against. It is bound to the hosts in its leaves, and it is evaluated by reading signals in any
monad, so that an engine, a fixed assignment of outcomes and a recorder of reads all serve.
-/

namespace SignalRules

structure SignalBinding where
  ref : Ref
  definition : SignalDef

structure ActionBinding where
  ref : Ref
  definition : ActionDef

/-- A compiled or hand-built expression. -/
abbrev Expr := Tree SignalBinding ActionBinding

/-- A compiled action call, as rules hold it. -/
structure Call where
  once : Bool
  binding : ActionBinding
  args : List Expr

def Call.toExpr (call : Call) : Expr :=
  .action call.once call.binding call.args

namespace Expr

def term (expr : Expr) : Term :=
  expr.map SignalBinding.ref ActionBinding.ref

def toScript (expr : Expr) : String :=
  (term expr).toScript

def signalNames (expr : Expr) : List String :=
  (term expr).signalNames

def actionNames (expr : Expr) : List String :=
  (term expr).actionNames

/-- The type of the result, as far as it is known without evaluation; actions have none. -/
def type? : Expr → Option ValueType
  | .constant value => some value.type
  | .signal binding => some binding.definition.result.type
  | .operator _ _ => some .number
  | .action _ _ _ => none

/-! ## Descriptions -/

/-- A constant beside a signal is shown as the signal shows its values; `text` describes the
operand in any other place. -/
def besideText (operand other : Expr) (text : String) : String :=
  match operand, other with
  | .constant value, .signal binding => binding.definition.result.format value
  | _, _ => text

/-- Operands of a connective stand in parentheses if they are boolean operators themselves. -/
def joinedText (operand : Expr) (text : String) : String :=
  match operand with
  | .operator op _ => if op.isBoolean then "(" ++ text ++ ")" else text
  | _ => text

/-- Describe an operator over operands with these descriptions. A wrong number of operands is
shown as a call. -/
def operatorText (op : Operator) (operands : List Expr) (texts : List String) : String :=
  if op.arity.Admits operands.length then
    match op, operands, texts with
    | .comparison c, [left, right], [leftText, rightText] =>
      besideText left right leftText ++ " " ++ c.sign ++ " " ++ besideText right left rightText
    | .not, _, [text] => "not (" ++ text ++ ")"
    | .connective c, _, _ =>
      (" " ++ c.keyword ++ " ").intercalate (List.zipWith joinedText operands texts)
    | .arithmetic a, _, [leftText, rightText] =>
      "(" ++ leftText ++ " " ++ a.sign ++ " " ++ rightText ++ ")"
    | _, _, _ => op.keyword ++ "(" ++ ", ".intercalate texts ++ ")"
  else op.keyword ++ "(" ++ ", ".intercalate texts ++ ")"

def argumentText (definition : ValueDef) (arg : Expr) (text : String) : String :=
  match arg with
  | .constant value => definition.format value
  | _ => text

/-- The argument texts of a call; arguments without a definition are left out. -/
def argumentTexts : List ValueDef → List Expr → List String → List String
  | d :: ds, arg :: args, text :: texts => argumentText d arg text :: argumentTexts ds args texts
  | _, _, _ => []

def callText (once : Bool) (definition : ActionDef) (args : List Expr) (texts : List String) :
    String :=
  let shown := argumentTexts definition.arguments args texts
  definition.display ++ (if shown.isEmpty then "" else "(" ++ ", ".intercalate shown ++ ")")
    ++ (if once then " (once)" else "")

mutual

/-- A summary for players. -/
def describe : Expr → String
  | .constant value => value.toLiteral
  | .signal binding => binding.definition.display
  | .operator op operands => operatorText op operands (describeAll operands)
  | .action once binding args => callText once binding.definition args (describeAll args)

def describeAll : List Expr → List String
  | [] => []
  | expr :: exprs => describe expr :: describeAll exprs

end

/-! ## Evaluation -/

section Evaluation

variable {m : Type → Type} [Monad m] (read : Ref → m (Outcome Value))

def readChecked (binding : SignalBinding) : m (Outcome Value) := do
  let outcome ← read binding.ref
  return outcome.andThen fun value =>
    .ofExcept ((binding.definition.result.validate value).map fun _ => value)

mutual

/-- The value of an expression. Operands are evaluated from left to right and none is left out
because another settles the result, since reading a signal may have effects. -/
def evaluate : Expr → m (Outcome Value)
  | .constant value => return .ready value
  | .signal binding => readChecked read binding
  | .operator op operands => do
    let values ← evaluateAll operands
    return values.andThen fun values => .ofExcept (op.apply values)
  | .action _ binding _ => return .failed (.evaluation (.noValue binding.ref.name))

/-- The values of all expressions. The first failure ends the evaluation; an interruption does
not, and of several the first is reported. -/
def evaluateAll : List Expr → m (Outcome (List Value))
  | [] => return .ready []
  | expr :: exprs => do
    match ← evaluate expr with
    | .failed e => return .failed e
    | .interrupted reason =>
      match ← evaluateAll exprs with
      | .failed e => return .failed e
      | _ => return .interrupted reason
    | .ready value =>
      return (← evaluateAll exprs).map fun values => value :: values

end

/-- How a completed action leaves its rule. -/
inductive Completion where
  | done
  /-- The call was marked to run once only. -/
  | doneOnce
  deriving DecidableEq

/-- Check values against definitions in order; the longer of the two lists is cut off. -/
def validateAll : List ValueDef → List Value → Except ScriptError Unit
  | d :: ds, value :: values =>
    match d.validate value with
    | .ok _ => validateAll ds values
    | .error e => .error e
  | _, _ => .ok ()

def arguments (call : Call) : m (Outcome (List Value)) := do
  let values ← evaluateAll read call.args
  return values.andThen fun values =>
    .ofExcept ((validateAll call.binding.definition.arguments values).map fun _ => values)

/-- Perform a call once all its arguments are ready and valid. -/
def executeCall (perform : Ref → List Value → m (Outcome Unit)) (call : Call) :
    m (Outcome Completion) := do
  match ← arguments read call with
  | .ready values =>
    return (← perform call.binding.ref values).map fun _ => if call.once then .doneOnce else .done
  | .interrupted reason => return .interrupted reason
  | .failed e => return .failed e

def execute (perform : Ref → List Value → m (Outcome Unit)) (expr : Expr) :
    m (Outcome Completion) :=
  match expr with
  | .action once binding args => executeCall read perform ⟨once, binding, args⟩
  | _ => return .failed (.evaluation (.notAction (toScript expr)))

end Evaluation

end Expr

end SignalRules
