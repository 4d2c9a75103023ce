import SignalRules.Expr
import SignalRules.Sexp.Reader

/-! # Scopes

A `Scope` is what the scripts of one host may say: the limits on their text, and the signals and
actions that their names lead to. This module gives written items their meaning in a scope.
-/

namespace SignalRules

/-- The limits and names for the scripts of one host. Besides its definition, a signal must have a
source and an action an executor; either may be missing at present. -/
structure Scope where
  host : HostId
  maxScriptLength : Nat
  maxNestingDepth : Nat
  signal : String → Except ScriptError SignalDef
  source : String → Except ScriptError Unit
  action : String → Except ScriptError ActionDef
  executor : String → Except ScriptError Unit

/-! ## Constants -/

/-- Replace a deprecated constant, then check that it is an option. Numbers pass as they are. -/
def ValueDef.normalize (d : ValueDef) (place : ConstantPlace) :
    Value → Except ScriptError Value
  | .number n => .ok (.number n)
  | .string s =>
    let text := (d.replacement? s).getD s
    if d.allows text then .ok (.string text) else .error (.compile (.unknownOption text place))

namespace Expr

/-- Fit an argument to its definition: its constant is normalized, its type compared, its constant
validated and its term checked. -/
def conform (d : ValueDef) (place : ConstantPlace) (expr : Expr) : Except ScriptError Expr := do
  let expr ← match expr with
    | .constant value => (d.normalize place value).map Tree.constant
    | expr => .ok expr
  match type? expr with
  | some actual =>
    if actual = d.type then pure () else throw (.compile (.argumentType place d.type actual))
  | none => pure ()
  match expr with
  | .constant value => d.validate value
  | _ => pure ()
  match d.argumentCheck with
  | some check => check (term expr)
  | none => pure ()
  return expr

/-- The operands of a comparison, a constant beside a signal normalized as that signal's value. -/
def normalizeBeside (left right : Expr) : Except ScriptError (Expr × Expr) :=
  match left, right with
  | .constant value, .signal binding =>
    (binding.definition.result.normalize (.signal binding.definition.display) value).map
      fun value => (.constant value, right)
  | .signal binding, .constant value =>
    (binding.definition.result.normalize (.signal binding.definition.display) value).map
      fun value => (left, .constant value)
  | _, _ => .ok (left, right)

/-- Build an operator over checked operands: two of one type for a comparison, else numbers. -/
def ofOperands (op : Operator) (operands : List Expr) : Except ScriptError Expr :=
  match op, operands with
  | .comparison c, [left, right] => do
    let (left, right) ← normalizeBeside left right
    if type? left = type? right then return .operator (.comparison c) [left, right]
    else throw (.compile (.operandTypes (.comparison c) (type? left) (type? right)))
  | op, operands =>
    match operands.find? fun operand => type? operand ≠ some .number with
    | some bad => .error (.compile (.operandNotNumber op (type? bad) (toScript bad)))
    | none => .ok (.operator op operands)

end Expr

namespace Scope

/-! ## Items -/

def bindSignal (scope : Scope) (name : String) : Except ScriptError Expr := do
  let definition ← scope.signal name
  scope.source name
  return .signal ⟨⟨name, scope.host⟩, definition⟩

mutual

def compileValue (scope : Scope) : Sexp → Except ScriptError Expr
  | .number text =>
    match Fixed.ofLiteral text with
    | .ok n => .ok (.constant (.number n))
    | .error e => .error (.literal e)
  | .string text => .ok (.constant (.string text))
  | .symbol name => .error (.compile (.bareSymbol name))
  | .list [] => .error (.compile .emptyList)
  | .list (.symbol keyword :: rest) =>
    if keyword = "sig" then
      match rest with
      | [.symbol name] => scope.bindSignal name
      | _ => .error (.compile .signalForm)
    else if keyword = "act" ∨ keyword = "act-once" then .error (.compile .nestedAction)
    else
      match Operator.ofKeyword? keyword with
      | none => .error (.compile (.unknownOperator keyword))
      | some op =>
        if op.arity.Admits rest.length then
          match compileAll scope rest with
          | .ok operands => Expr.ofOperands op operands
          | .error e => .error e
        else .error (.compile (.operandCount op rest.length))
  | .list (head :: _) => .error (.compile (.headNotSymbol head.kind))

def compileAll (scope : Scope) : List Sexp → Except ScriptError (List Expr)
  | [] => .ok []
  | item :: items =>
    match compileValue scope item with
    | .error e => .error e
    | .ok expr => (compileAll scope items).map fun exprs => expr :: exprs

end

/-- Compile the arguments of a call one after the other, each against its definition; the first of
them has this number. -/
def compileArguments (scope : Scope) (action : String) :
    Nat → List ValueDef → List Sexp → Except ScriptError (List Expr)
  | number, d :: ds, item :: items => do
    let expr ← scope.compileValue item
    let arg ← Expr.conform d (.argument number action) expr
    let args ← compileArguments scope action (number + 1) ds items
    return arg :: args
  | _, _, _ => .ok []

/-- The call that the items behind `act` or `act-once` mean. -/
def compileCall (scope : Scope) (once : Bool) : List Sexp → Except ScriptError Call
  | .symbol name :: items => do
    let definition ← scope.action name
    if items.length ≠ definition.arguments.length then
      throw (.compile (.argumentCount name definition.arguments.length items.length))
    let args ← scope.compileArguments name 1 definition.arguments items
    scope.executor name
    return ⟨once, ⟨⟨name, scope.host⟩, definition⟩, args⟩
  | _ => .error (.compile .actionForm)

/-- The expression that an item means: a call or a value. -/
def compile (scope : Scope) (item : Sexp) : Except ScriptError Expr :=
  match item with
  | .list (.symbol keyword :: rest) =>
    if keyword = "act" then (scope.compileCall false rest).map Call.toExpr
    else if keyword = "act-once" then (scope.compileCall true rest).map Call.toExpr
    else scope.compileValue item
  | item => scope.compileValue item

/-! ## Scripts -/

def parse (scope : Scope) (script : String) : Except ScriptError Expr :=
  if scope.maxScriptLength < script.utf8ByteSize then
    .error (.compile (.tooLong scope.maxScriptLength))
  else
    match Sexp.read script scope.maxNestingDepth with
    | .ok item => scope.compile item
    | .error e => .error (.read e)

/-- A script that can serve as a condition: its value is a number. -/
def parseCondition (scope : Scope) (script : String) : Except ScriptError Expr := do
  let expr ← scope.parse script
  match expr.type? with
  | some .number => return expr
  | some actual => throw (.compile (.conditionType actual))
  | none => throw (.compile .conditionIsAction)

def parseCall (scope : Scope) (script : String) : Except ScriptError Call := do
  match ← scope.parse script with
  | .action once binding args => return ⟨once, binding, args⟩
  | expr => throw (.compile (.actionExpected expr.toScript))

/-- The same expression for the host of this scope, compiled from the script of the other. -/
def rebind (scope : Scope) (expr : Expr) : Except ScriptError Expr :=
  scope.parse expr.toScript

end Scope

end SignalRules
