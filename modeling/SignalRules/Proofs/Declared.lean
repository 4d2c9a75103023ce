import SignalRules.Proofs.OneShot
import SignalRules.Proofs.Session

/-! # What providers declare

The providers that are always there check values by type and in no other way. So an evaluation over
their declarations may fail, but not with an error of the dispatcher. Rules that are compiled
without devices are made of such declarations, and what their actions do is known beforehand: they
log, or they write one signal.
-/

namespace SignalRules

/-- The dispatcher refused a callback. -/
def ScriptError.isRefusal : ScriptError → Bool
  | .dispatch _ => true
  | _ => false

namespace Outcome

variable {α β : Type}

/-- The outcome is no refusal. -/
def Unrefused (o : Outcome α) : Prop :=
  ∀ error, o = .failed error → error.isRefusal = false

theorem unrefused_ready (a : α) : (ready a).Unrefused := by
  rintro _ ⟨⟩

theorem unrefused_interrupted (reason : String) :
    (interrupted reason : Outcome α).Unrefused := by
  rintro _ ⟨⟩

theorem unrefused_failed {error : ScriptError} (ordinary : error.isRefusal = false) :
    (failed error : Outcome α).Unrefused := by
  rintro _ ⟨⟩
  exact ordinary

theorem Unrefused.andThen {o : Outcome α} {f : α → Outcome β} (first : o.Unrefused)
    (rest : ∀ a, o = .ready a → (f a).Unrefused) : (o.andThen f).Unrefused := by
  cases o with
  | ready a => exact rest a rfl
  | interrupted reason => exact unrefused_interrupted reason
  | failed error => exact unrefused_failed (first error rfl)

theorem Unrefused.map {o : Outcome α} (unrefused : o.Unrefused) (f : α → β) :
    (o.map f).Unrefused :=
  unrefused.andThen fun a _ => unrefused_ready (f a)

theorem Unrefused.ofExcept_map {x : Except ScriptError α} (unrefused : (ofExcept x).Unrefused)
    (f : α → β) : (ofExcept (x.map f)).Unrefused := by
  cases x with
  | ok a => exact unrefused_ready (f a)
  | error error => exact unrefused_failed (unrefused error rfl)

end Outcome

/-! ## Operations -/

open Outcome (unrefused_ready unrefused_interrupted unrefused_failed)

theorem Value.unrefused_isTrue (v : Value) : (Outcome.ofExcept v.isTrue).Unrefused := by
  cases v with
  | number n => exact unrefused_ready _
  | string s => exact unrefused_failed rfl

theorem Value.unrefused_mapM_isTrue (vs : List Value) :
    (Outcome.ofExcept (vs.mapM Value.isTrue)).Unrefused := by
  induction vs with
  | nil => exact unrefused_ready _
  | cons v vs ih =>
    have head := v.unrefused_isTrue
    rw [List.mapM_cons]
    cases first : v.isTrue with
    | error error =>
      rw [first] at head
      exact unrefused_failed (head error rfl)
    | ok t =>
      cases rest : vs.mapM Value.isTrue with
      | error error =>
        rw [rest] at ih
        exact unrefused_failed (ih error rfl)
      | ok ts => exact unrefused_ready _

theorem Value.unrefused_cmp (a b : Value) : (Outcome.ofExcept (a.cmp b)).Unrefused := by
  cases a <;> cases b <;> first | exact unrefused_ready _ | exact unrefused_failed rfl

theorem Arithmetic.unrefused_apply (op : Arithmetic) (a b : Value) :
    (Outcome.ofExcept (op.apply a b)).Unrefused := by
  cases a with
  | string _ => exact unrefused_failed rfl
  | number a =>
    cases b with
    | string _ => exact unrefused_failed rfl
    | number b =>
      refine Outcome.Unrefused.ofExcept_map ?_ _
      unfold onNumbers
      cases op with
      | add | sub | mul =>
        simp only
        split
        · exact unrefused_ready _
        · exact unrefused_failed rfl
      | div =>
        simp only
        split
        · exact unrefused_failed rfl
        · split
          · exact unrefused_ready _
          · exact unrefused_failed rfl

theorem Operator.unrefused_apply (op : Operator) (values : List Value) :
    (Outcome.ofExcept (op.apply values)).Unrefused := by
  unfold apply
  split
  · split
    · exact (Value.unrefused_cmp _ _).ofExcept_map _
    · exact (Value.unrefused_mapM_isTrue _).ofExcept_map _
    · exact (Value.unrefused_mapM_isTrue _).ofExcept_map _
    · exact (Value.unrefused_isTrue _).ofExcept_map _
    · exact Arithmetic.unrefused_apply _ _ _
    · exact unrefused_failed rfl
  · exact unrefused_failed rfl

/-! ## Expressions -/

namespace ValueDef

/-- Any value of the right type will do. -/
def Unguarded (d : ValueDef) : Prop :=
  d.validator = none

theorem Unguarded.validate {d : ValueDef} (unguarded : d.Unguarded) (value : Value) :
    (Outcome.ofExcept (d.validate value)).Unrefused := by
  unfold ValueDef.validate
  split
  · rw [unguarded]
    exact unrefused_ready ()
  · exact unrefused_failed rfl

end ValueDef

namespace Expr

/-- The signals may have any values of their types. -/
def Unguarded (bindings : List SignalBinding) : Prop :=
  ∀ binding ∈ bindings, binding.definition.result.Unguarded

variable {outcome : Ref → Outcome Value}

mutual

theorem unrefused_value (source : ∀ signal, (outcome signal).Unrefused) :
    ∀ {expr : Expr}, Unguarded expr.signals → (value outcome expr).Unrefused
  | .constant v, _ => by
    rw [value_constant]
    exact unrefused_ready v
  | .signal binding, unguarded => by
    rw [value_signal]
    refine (source binding.ref).andThen fun v _ => Outcome.Unrefused.ofExcept_map ?_ _
    exact (unguarded binding (by simp [Tree.signals])).validate v
  | .operator op operands, unguarded => by
    rw [value_operator]
    exact (unrefused_values source (by simpa only [Tree.signals] using unguarded)).andThen
      fun vs _ => op.unrefused_apply vs
  | .action _ _ _, _ => by
    rw [value_action]
    exact unrefused_failed rfl

theorem unrefused_values (source : ∀ signal, (outcome signal).Unrefused) :
    ∀ {exprs : List Expr}, Unguarded (Tree.signalsAll exprs) → (values outcome exprs).Unrefused
  | [], _ => by
    rw [values_nil]
    exact unrefused_ready []
  | expr :: exprs, unguarded => by
    simp only [Tree.signalsAll, Unguarded, List.mem_append] at unguarded
    have first := unrefused_value source fun binding member => unguarded binding (.inl member)
    have rest := unrefused_values source fun binding member => unguarded binding (.inr member)
    rw [values_cons]
    cases head : value outcome expr with
    | ready v => exact rest.map _
    | failed error => exact unrefused_failed (first error head)
    | interrupted _ =>
      cases tail : values outcome exprs with
      | failed error => exact unrefused_failed (rest error tail)
      | ready _ | interrupted _ => exact unrefused_interrupted _

end

theorem unrefused_validateAll {ds : List ValueDef} (unguarded : ∀ d ∈ ds, d.Unguarded)
    (vs : List Value) : (Outcome.ofExcept (validateAll ds vs)).Unrefused := by
  induction ds generalizing vs with
  | nil => exact unrefused_ready ()
  | cons d ds ih =>
    cases vs with
    | nil => exact unrefused_ready ()
    | cons v vs =>
      have first := (unguarded d List.mem_cons_self).validate v
      rw [validateAll]
      cases valid : d.validate v with
      | error error =>
        rw [valid] at first
        exact unrefused_failed (first error rfl)
      | ok _ => exact ih (fun d member => unguarded d (List.mem_cons_of_mem _ member)) vs

theorem unrefused_argumentValues (source : ∀ signal, (outcome signal).Unrefused) {call : Call}
    (args : Unguarded (Tree.signalsAll call.args))
    (arguments : ∀ d ∈ call.binding.definition.arguments, d.Unguarded) :
    (argumentValues outcome call).Unrefused :=
  (unrefused_values source args).andThen fun vs _ =>
    (unrefused_validateAll arguments vs).ofExcept_map _

end Expr

/-- Nothing that the rule reads or calls is particular about values. -/
structure Rule.Unguarded (rule : Rule) : Prop where
  condition : Expr.Unguarded rule.condition.signals
  args : Expr.Unguarded (Tree.signalsAll rule.action.args)
  arguments : ∀ d ∈ rule.action.binding.definition.arguments, d.Unguarded

theorem Rule.Unguarded.of_parts {rule rule' : Rule} (unguarded : rule.Unguarded)
    (parts : rule.parts = rule'.parts) : rule'.Unguarded := by
  have condition : rule.condition = rule'.condition :=
    (congrArg Rule.condition parts : rule.parts.condition = rule'.parts.condition)
  have action : rule.action = rule'.action :=
    (congrArg Rule.action parts : rule.parts.action = rule'.parts.action)
  exact ⟨condition ▸ unguarded.condition, action ▸ unguarded.args, action ▸ unguarded.arguments⟩

/-! ## Without devices -/

namespace Engine

variable {σ : Type} {e : Engine σ} {host : HostId}

theorem isRefusal_of_provider {name : String} {error : ScriptError}
    (unknown : e.provider name = .error error) : error.isRefusal = false := by
  unfold provider at unknown
  split at unknown
  · cases unknown
    rfl
  · split at unknown
    · cases unknown
    · split at unknown
      · cases unknown
      · split at unknown
        · cases unknown
        · cases unknown
          rfl

theorem isRefusal_of_localName {name : String} {error : ScriptError}
    (unknown : Globals.localName name = .error error) : error.isRefusal = false := by
  simp only [Globals.localName] at unknown
  split at unknown
  · split at unknown
    · cases unknown
    · cases unknown
      rfl
  · cases unknown
    rfl

theorem isRefusal_of_checkSignal {name : String} {error : ScriptError}
    (unknown : Diagnostics.checkSignal name = .error error) : error.isRefusal = false := by
  unfold Diagnostics.checkSignal at unknown
  split at unknown
  · cases unknown
  · cases unknown
    rfl

theorem unrefused_outcome (bare : e.devices = []) (signal : Ref) :
    (e.outcome signal).Unrefused := by
  unfold outcome signalOutcome
  cases known : e.provider signal.name with
  | error error => exact unrefused_failed (isRefusal_of_provider known)
  | ok provider =>
    cases provider with
    | globals =>
      simp only
      cases parsed : Globals.localName signal.name with
      | error error => exact unrefused_failed (isRefusal_of_localName parsed)
      | ok name =>
        simp only [Globals.outcome]
        split
        · exact unrefused_ready _
        · exact unrefused_interrupted _
    | diagnostics =>
      simp only
      cases checked : Diagnostics.checkSignal signal.name with
      | error error => exact unrefused_failed (isRefusal_of_checkSignal checked)
      | ok _ => exact unrefused_ready _
    | device device => exact absurd known (provider_of_no_devices bare _ device)

theorem unguarded_of_signalDef (bare : e.devices = []) {signal : Ref} {d : SignalDef}
    (found : e.signalDef signal = .ok d) : d.result.Unguarded := by
  unfold signalDef at found
  split at found
  · cases found
  · obtain ⟨_, _, rfl⟩ := Except.map_eq_ok found
    rfl
  · obtain ⟨_, _, rfl⟩ := Except.map_eq_ok found
    rfl
  · exact absurd ‹_› (provider_of_no_devices bare _ _)

/-- Without devices there are but two actions. -/
theorem actionDef_cases (bare : e.devices = []) {action : Ref} {d : ActionDef}
    (found : e.actionDef action = .ok d) :
    action.name = Globals.setAction ∧ d = Globals.setDefinition ∨
      action.name = Diagnostics.logAction ∧ d = Diagnostics.logDefinition := by
  unfold actionDef at found
  split at found
  · cases found
  · split at found
    · cases found
      exact .inl ⟨‹_›, rfl⟩
    · cases found
  · obtain ⟨_, checked, rfl⟩ := Except.map_eq_ok found
    unfold Diagnostics.checkAction at checked
    split at checked
    · exact .inr ⟨‹_›, rfl⟩
    · cases checked
  · exact absurd ‹_› (provider_of_no_devices bare _ _)

theorem unguarded_of_actionDef (bare : e.devices = []) {action : Ref} {d : ActionDef}
    (found : e.actionDef action = .ok d) : ∀ argument ∈ d.arguments, argument.Unguarded := by
  rcases actionDef_cases bare found with ⟨_, rfl⟩ | ⟨_, rfl⟩ <;>
    simp [Globals.setDefinition, Diagnostics.logDefinition, ValueDef.Unguarded, ValueDef.number,
      ValueDef.string]

end Engine

/-! ## Compiled rules -/

namespace Expr

theorem Becomes.signals_eq {expr expr' : Expr} (becomes : Becomes expr expr') :
    expr'.signals = expr.signals := by
  cases becomes <;> rfl

theorem Joins.signals_eq {op : Operator} {operands : List Expr} {expr : Expr}
    (joins : Joins op operands expr) : expr.signals = Tree.signalsAll operands := by
  cases joins with
  | comparison c normal _ =>
    obtain ⟨left, right⟩ := becomes_of_normalizeBeside normal
    simp only [Tree.signals, Tree.signalsAll, left.signals_eq, right.signals_eq]
  | numbers _ _ => rfl

theorem Conforms.signals_eq {d : ValueDef} {place : ConstantPlace} {expr arg : Expr}
    (conforms : Conforms d place expr arg) : arg.signals = expr.signals :=
  (becomes_of_normalizeArgument conforms.normal).signals_eq

end Expr

/-- The signal that an action writes, by its full name, if its name is a constant. -/
def Call.target? (call : Call) : Option String :=
  match call.args with
  | .constant (.string name) :: _ =>
    if call.binding.ref.name = Globals.setAction then some (Globals.fullName name) else none
  | _ => none

namespace Engine

variable {σ : Type} {e : Engine σ} {host : HostId}

/-- The signals are bound to the definitions that the providers give. -/
def Declares (e : Engine σ) (bindings : List SignalBinding) : Prop :=
  ∀ binding ∈ bindings, e.signalDef binding.ref = .ok binding.definition

/-- The rule is made of what the providers declare, and its action logs, or writes a signal whose
name is a constant. -/
structure Predictable (e : Engine σ) (rule : Rule) : Prop where
  condition : e.Declares rule.condition.signals
  args : e.Declares (Tree.signalsAll rule.action.args)
  action : e.actionDef rule.action.binding.ref = .ok rule.action.binding.definition
  effect : rule.action.binding.ref.name = Diagnostics.logAction ∨ rule.action.target?.isSome

theorem Predictable.unguarded (bare : e.devices = []) {rule : Rule}
    (predictable : e.Predictable rule) : rule.Unguarded where
  condition binding member := unguarded_of_signalDef bare (predictable.condition binding member)
  args binding member := unguarded_of_signalDef bare (predictable.args binding member)
  arguments := unguarded_of_actionDef bare predictable.action

theorem Declares.append {first rest : List SignalBinding} (inFirst : e.Declares first)
    (inRest : e.Declares rest) : e.Declares (first ++ rest) :=
  fun binding member => (List.mem_append.1 member).elim (inFirst binding) (inRest binding)

mutual

theorem declares_of_means : ∀ {item : Sexp} {expr : Expr}, (e.scope host).Means item expr →
    e.Declares expr.signals
  | _, _, .number _ | _, _, .string _ => by
    simp [Declares, Tree.signals]
  | _, _, .signal found _ => by
    intro binding member
    rw [Tree.signals, List.mem_singleton] at member
    exact member ▸ found
  | _, _, .operator _ meant made => by
    rw [(Expr.ofOperands_eq_ok_iff.1 made).signals_eq]
    exact declares_of_meansAll meant

theorem declares_of_meansAll : ∀ {items : List Sexp} {exprs : List Expr},
    (e.scope host).MeansAll items exprs → e.Declares (Tree.signalsAll exprs)
  | _, _, .nil => by
    simp [Declares, Tree.signalsAll]
  | _, _, .cons meant rest => (declares_of_means meant).append (declares_of_meansAll rest)

end

theorem declares_of_arguments {action : String} {number : Nat} {ds : List ValueDef}
    {items : List Sexp} {args : List Expr}
    (arguments : (e.scope host).Arguments action number ds items args) :
    e.Declares (Tree.signalsAll args) := by
  induction arguments with
  | nil => simp [Declares, Tree.signalsAll]
  | cons meant fits _ ih =>
    have conforms := Expr.conform_eq_ok_iff.1 fits
    refine Declares.append ?_ ih
    rw [conforms.signals_eq]
    exact declares_of_means meant

theorem declares_of_parseCondition {script : String} {condition : Expr}
    (parsed : (e.scope host).parseCondition script = .ok condition) :
    e.Declares condition.signals := by
  obtain ⟨expr, parsed, typed⟩ := Except.bind_eq_ok parsed
  obtain ⟨_, _, meant⟩ := Scope.means_of_parse parsed
  cases meant with
  | value meant =>
    split at typed <;> cases typed
    exact declares_of_means meant
  | call _ => cases typed

theorem declared_of_meansCall {once : Bool} {items : List Sexp} {call : Call}
    (meant : (e.scope host).MeansCall once items call) :
    e.actionDef call.binding.ref = .ok call.binding.definition ∧
      e.Declares (Tree.signalsAll call.args) := by
  obtain ⟨found, _, arguments, _⟩ := meant
  exact ⟨found, declares_of_arguments arguments⟩

/-- The first argument of a call that writes a signal is a text. -/
theorem isSome_target?_of_meansCall (bare : e.devices = []) {once : Bool} {items : List Sexp}
    {call : Call} (meant : (e.scope host).MeansCall once items call)
    (sets : call.binding.ref.name = Globals.setAction) : call.target?.isSome := by
  obtain ⟨value, args, given⟩ := constant_of_meansCall bare meant sets
  obtain ⟨found, _, arguments, _⟩ := meant
  simp only at sets given
  subst sets
  obtain rfl := actionDef_setAction found
  cases arguments with
  | cons _ fits _ =>
    cases given
    have isText := (Expr.conform_eq_ok_iff.1 fits).type _ rfl
    cases value with
    | number _ => cases isText
    | string name => simp [Call.target?]

/-- Without devices, all rules that can be compiled are predictable. -/
theorem predictable_of_ofRecord (bare : e.devices = []) {record : RuleRecord} {rule : Rule}
    (made : Rule.ofRecord (e.scope host) record = .ok rule) : e.Predictable rule := by
  obtain ⟨built, condition, action, _, rfl⟩ := Rule.ofRecord_cases made
  obtain ⟨_, _, meant⟩ := Scope.meansCall_of_parseCall action
  obtain ⟨found, args⟩ := declared_of_meansCall meant
  refine ⟨declares_of_parseCondition condition, args, found, ?_⟩
  rcases actionDef_cases bare found with ⟨sets, _⟩ | ⟨logs, _⟩
  · exact .inr (isSome_target?_of_meansCall bare meant sets)
  · exact .inl logs

end Engine

end SignalRules
