import SignalRules.Proofs.Meaning
import SignalRules.Proofs.Reading

/-! # Calls that are to run once

What scripts can say about the signal that an action writes: among the providers that are always
there only numbers can be read, so the name of a signal to be written is a constant.
-/

namespace SignalRules

/-- The action is to run once, and can write no signal but this. -/
structure Call.OneShot (call : Call) (target : String) : Prop where
  once : call.once = true
  writes : call.binding.ref.name = Globals.setAction → ∀ {outcome name values},
    Expr.argumentValues outcome call = .ready (.string name :: values) → name = target

/-- The expression is a constant or evaluates to numbers only. -/
def Expr.IsPlain (expr : Expr) : Prop :=
  (∃ value, expr = .constant value) ∨ expr.type? = some .number

theorem Expr.Joins.isPlain {op : Operator} {operands : List Expr} {expr : Expr}
    (joins : Joins op operands expr) : expr.IsPlain := by
  cases joins <;> exact .inr rfl

/-- The text that a constant is. -/
def Value.text : Value → String
  | .string s => s
  | .number _ => ""

namespace Engine

variable {σ : Type} {e : Engine σ} {host : HostId}

theorem number_of_signalDef (bare : e.devices = []) {signal : Ref} {d : SignalDef}
    (found : e.signalDef signal = .ok d) : d.result.type = .number := by
  unfold signalDef at found
  split at found
  · cases found
  · obtain ⟨_, _, rfl⟩ := Except.map_eq_ok found
    rfl
  · obtain ⟨_, _, rfl⟩ := Except.map_eq_ok found
    rfl
  · exact absurd ‹_› (provider_of_no_devices bare _ _)

theorem isPlain_of_means (bare : e.devices = []) {item : Sexp} {expr : Expr}
    (meant : (e.scope host).Means item expr) : expr.IsPlain := by
  cases meant with
  | number | string => exact .inl ⟨_, rfl⟩
  | signal found _ => exact .inr (congrArg some (number_of_signalDef bare found))
  | operator _ _ made => exact (Expr.ofOperands_eq_ok_iff.1 made).isPlain

/-- A text is always given as such. -/
theorem constant_of_conforms {d : ValueDef} {place : ConstantPlace} {expr arg : Expr}
    (isPlain : expr.IsPlain) (isText : d.type = .string)
    (conforms : Expr.Conforms d place expr arg) : ∃ value, arg = .constant value := by
  cases expr with
  | constant _ =>
    obtain ⟨value, _, same⟩ := Except.map_eq_ok conforms.normal
    exact ⟨value, same.symm⟩
  | signal _ | operator _ _ | action _ _ _ =>
    have isNumber := isPlain.resolve_left (by rintro ⟨_, ⟨⟩⟩)
    cases conforms.normal
    have isNeither := conforms.type _ isNumber
    rw [isText] at isNeither
    cases isNeither

theorem actionDef_setAction {d : ActionDef}
    (found : e.actionDef ⟨Globals.setAction, host⟩ = .ok d) : d = Globals.setDefinition := by
  have known : e.provider Globals.setAction = .ok .globals := by
    unfold provider
    rw [show providerName? Globals.setAction = some Globals.providerName by decide]
    rfl
  simp only [actionDef, known] at found
  cases found
  rfl

/-- The first argument of a call that writes a signal is a constant. -/
theorem constant_of_meansCall (bare : e.devices = []) {once : Bool} {items : List Sexp}
    {call : Call} (meant : (e.scope host).MeansCall once items call)
    (sets : call.binding.ref.name = Globals.setAction) :
    ∃ value args, call.args = .constant value :: args := by
  obtain ⟨found, _, arguments, _⟩ := meant
  simp only at sets
  subst sets
  obtain rfl := actionDef_setAction found
  cases arguments with
  | cons meant fits _ =>
    have conforms := Expr.conform_eq_ok_iff.1 fits
    obtain ⟨value, rfl⟩ := constant_of_conforms (isPlain_of_means bare meant) rfl conforms
    exact ⟨value, _, rfl⟩

theorem eq_text_of_argumentValues {outcome : Ref → Outcome Value} {call : Call} {value : Value}
    {args : List Expr} (given : call.args = .constant value :: args) {name : String}
    {values : List Value}
    (evaluated : Expr.argumentValues outcome call = .ready (.string name :: values)) :
    name = value.text := by
  rw [Expr.argumentValues, given, Expr.values_cons, Expr.value_constant] at evaluated
  simp only at evaluated
  cases rest : Expr.values outcome args with
  | interrupted _ | failed _ =>
    rw [rest] at evaluated
    cases evaluated
  | ready others =>
    simp only [rest, Outcome.map, Outcome.andThen] at evaluated
    cases valid : Expr.validateAll call.binding.definition.arguments (value :: others) with
    | error _ =>
      rw [valid] at evaluated
      cases evaluated
    | ok _ =>
      rw [valid] at evaluated
      cases evaluated
      rfl

/-- Every action in a script can write but one signal. -/
theorem oneShot_of_parseCall (bare : e.devices = []) {script : String} {call : Call}
    (parsed : (e.scope host).parseCall script = .ok call) (once : call.once = true) :
    ∃ target, call.OneShot target := by
  obtain ⟨_, items, meant⟩ := Scope.meansCall_of_parseCall parsed
  by_cases sets : call.binding.ref.name = Globals.setAction
  · obtain ⟨value, args, given⟩ := constant_of_meansCall bare meant sets
    exact ⟨value.text, once, fun _ => eq_text_of_argumentValues given⟩
  · exact ⟨"", once, fun isSet => absurd isSet sets⟩

end Engine

end SignalRules
