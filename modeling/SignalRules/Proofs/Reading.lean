import SignalRules.Proofs.Running

/-! # Reading and evaluating

Evaluating an expression leaves an engine as it is but for the journal and the foreign state. On an
engine without devices the outcome depends on nothing but the outcomes of the signals in the
expression, and it is put off exactly as long as one of them is.
-/

namespace SignalRules

/-- An entry that is made while providers are read or act, and no listener is told of anything. -/
def Event.isAside : Event → Bool
  | .read _ _ => true
  | .called _ _ => true
  | .returned _ _ => true
  | .logged _ _ => true
  | .remarked _ _ => true
  | _ => false

theorem Event.isApart_of_isAside {event : Event} (aside : event.isAside) : event.isApart := by
  cases event <;> first | rfl | cases aside

/-- Going on with a computation that cannot be put off puts nothing off. -/
theorem Outcome.andThen_ofExcept_ne_interrupted {α β : Type} {o : Outcome α}
    (settled : ∀ reason, o ≠ .interrupted reason) (f : α → Except ScriptError β)
    (reason : String) : (o.andThen fun a => .ofExcept (f a)) ≠ .interrupted reason := by
  cases o with
  | ready a =>
    simp only [Outcome.andThen]
    cases f a <;> exact nofun
  | interrupted reason => exact absurd rfl (settled reason)
  | failed _ => exact nofun

namespace Expr

/-! ## Values

What an expression evaluates to if each signal has a fixed outcome. -/

def value (outcome : Ref → Outcome Value) (expr : Expr) : Outcome Value :=
  evaluate (m := Id) outcome expr

def values (outcome : Ref → Outcome Value) (exprs : List Expr) : Outcome (List Value) :=
  evaluateAll (m := Id) outcome exprs

section

variable (outcome : Ref → Outcome Value)

theorem value_constant (v : Value) : value outcome (.constant v) = .ready v := by
  rw [value, evaluate]
  rfl

theorem value_signal (binding : SignalBinding) :
    value outcome (.signal binding) = (outcome binding.ref).andThen fun v =>
      .ofExcept ((binding.definition.result.validate v).map fun _ => v) := by
  rw [value, evaluate]
  rfl

theorem value_operator (op : Operator) (operands : List Expr) :
    value outcome (.operator op operands) =
      (values outcome operands).andThen fun vs => .ofExcept (op.apply vs) := by
  rw [value, evaluate]
  rfl

theorem value_action (once : Bool) (binding : ActionBinding) (args : List Expr) :
    value outcome (.action once binding args) =
      .failed (.evaluation (.noValue binding.ref.name)) := by
  rw [value, evaluate]
  rfl

theorem values_nil : values outcome [] = .ready [] := by
  rw [values, evaluateAll]
  rfl

theorem values_cons (expr : Expr) (exprs : List Expr) :
    values outcome (expr :: exprs) =
      match value outcome expr with
      | .failed error => .failed error
      | .interrupted reason =>
        match values outcome exprs with
        | .failed error => .failed error
        | _ => .interrupted reason
      | .ready v => (values outcome exprs).map fun vs => v :: vs := by
  rw [values, evaluateAll]
  change (match value outcome expr with
    | .failed error => .failed error
    | .interrupted reason => (match values outcome exprs with
      | .failed error => .failed error
      | _ => .interrupted reason : Id (Outcome (List Value)))
    | .ready v => (values outcome exprs).map fun vs => v :: vs : Id (Outcome (List Value))) = _
  rfl

end

/-- The checked argument values of a call. -/
def argumentValues (outcome : Ref → Outcome Value) (call : Call) : Outcome (List Value) :=
  (values outcome call.args).andThen fun vs =>
    .ofExcept ((validateAll call.binding.definition.arguments vs).map fun _ => vs)

/-! Only the signals in an expression have a part in its value. -/

mutual

theorem value_congr {f g : Ref → Outcome Value} : ∀ {expr : Expr},
    (∀ binding ∈ expr.signals, f binding.ref = g binding.ref) → value f expr = value g expr
  | .constant _, _ => by rw [value_constant, value_constant]
  | .signal binding, same => by
    rw [value_signal, value_signal, same binding (by simp [Tree.signals])]
  | .operator _ operands, same => by
    rw [value_operator, value_operator, values_congr (by simpa only [Tree.signals] using same)]
  | .action _ _ _, _ => by rw [value_action, value_action]

theorem values_congr {f g : Ref → Outcome Value} : ∀ {exprs : List Expr},
    (∀ binding ∈ Tree.signalsAll exprs, f binding.ref = g binding.ref) →
      values f exprs = values g exprs
  | [], _ => by rw [values_nil, values_nil]
  | expr :: exprs, same => by
    simp only [Tree.signalsAll, List.mem_append] at same
    rw [values_cons, values_cons, value_congr fun binding member => same binding (.inl member),
      values_congr fun binding member => same binding (.inr member)]

end

mutual

theorem signals_map (f : SignalBinding → Ref) (g : ActionBinding → Ref) : ∀ expr : Expr,
    (expr.map f g).signals = expr.signals.map f
  | .constant _ => rfl
  | .signal _ => rfl
  | .operator _ operands => signalsAll_map f g operands
  | .action _ _ args => signalsAll_map f g args

theorem signalsAll_map (f : SignalBinding → Ref) (g : ActionBinding → Ref) : ∀ exprs : List Expr,
    Tree.signalsAll (Tree.mapAll f g exprs) = (Tree.signalsAll exprs).map f
  | [] => rfl
  | expr :: exprs => by
    rw [Tree.mapAll, Tree.signalsAll, Tree.signalsAll, List.map_append, signals_map f g expr,
      signalsAll_map f g exprs]

end

theorem mem_signalNames {expr : Expr} {binding : SignalBinding} (member : binding ∈ expr.signals) :
    binding.ref.name ∈ signalNames expr := by
  rw [signalNames, Term.signalNames, term, signals_map, List.mem_eraseDups, List.map_map]
  exact List.mem_map_of_mem member

/-! ## Interruptions -/

/-- None of these signals is put off. -/
def Settled (outcome : Ref → Outcome Value) (bindings : List SignalBinding) : Prop :=
  ∀ binding ∈ bindings, ∀ reason, outcome binding.ref ≠ .interrupted reason

variable {outcome : Ref → Outcome Value}

mutual

/-- A value is not ready before all its signals are. -/
theorem settled_of_value : ∀ {expr : Expr} {v : Value},
    value outcome expr = .ready v → Settled outcome expr.signals
  | .constant _, _, _ => fun _ member => by cases member
  | .signal binding, _, ready => by
    rw [value_signal] at ready
    intro binding' member reason putOff
    rw [Tree.signals, List.mem_singleton] at member
    rw [member] at putOff
    rw [putOff] at ready
    cases ready
  | .operator _ operands, _, ready => by
    rw [value_operator] at ready
    rw [Tree.signals]
    cases inner : values outcome operands with
    | ready vs => exact settled_of_values inner
    | interrupted _ | failed _ =>
      rw [inner] at ready
      cases ready
  | .action _ _ _, _, ready => by
    rw [value_action] at ready
    cases ready

theorem settled_of_values : ∀ {exprs : List Expr} {vs : List Value},
    values outcome exprs = .ready vs → Settled outcome (Tree.signalsAll exprs)
  | [], _, _ => fun _ member => by cases member
  | expr :: exprs, _, ready => by
    rw [values_cons] at ready
    intro binding member
    cases first : value outcome expr with
    | failed _ =>
      rw [first] at ready
      cases ready
    | interrupted _ =>
      rw [first] at ready
      cases rest : values outcome exprs <;> rw [rest] at ready <;> cases ready
    | ready _ =>
      cases rest : values outcome exprs with
      | ready _ =>
        rcases List.mem_append.1 member with inFirst | inRest
        · exact settled_of_value first binding inFirst
        · exact settled_of_values rest binding inRest
      | interrupted _ | failed _ =>
        rw [first, rest] at ready
        cases ready

end

mutual

/-- A value is not put off unless one of its signals is. -/
theorem value_ne_interrupted : ∀ {expr : Expr}, Settled outcome expr.signals → ∀ reason,
    value outcome expr ≠ .interrupted reason
  | .constant _, _, _ => by
    rw [value_constant]
    exact nofun
  | .signal binding, settled, reason => by
    rw [value_signal]
    exact Outcome.andThen_ofExcept_ne_interrupted
      (settled binding (by simp [Tree.signals])) _ reason
  | .operator op operands, settled, reason => by
    rw [value_operator]
    exact Outcome.andThen_ofExcept_ne_interrupted
      (values_ne_interrupted (by simpa only [Tree.signals] using settled)) _ reason
  | .action _ _ _, _, _ => by
    rw [value_action]
    exact nofun

theorem values_ne_interrupted : ∀ {exprs : List Expr}, Settled outcome (Tree.signalsAll exprs) →
    ∀ reason, values outcome exprs ≠ .interrupted reason
  | [], _, _ => by
    rw [values_nil]
    exact nofun
  | expr :: exprs, settled, reason => by
    simp only [Tree.signalsAll, Settled, List.mem_append] at settled
    have first := value_ne_interrupted fun binding member => settled binding (.inl member)
    have rest := values_ne_interrupted fun binding member => settled binding (.inr member)
    rw [values_cons]
    cases head : value outcome expr with
    | ready _ =>
      cases tail : values outcome exprs with
      | ready _ | failed _ => simp [Outcome.map, Outcome.andThen]
      | interrupted reason => exact absurd tail (rest reason)
    | interrupted reason => exact absurd head (first reason)
    | failed _ => simp

end

theorem settled_of_argumentValues {call : Call} {vs : List Value}
    (ready : argumentValues outcome call = .ready vs) :
    Settled outcome (Tree.signalsAll call.args) := by
  rw [argumentValues] at ready
  cases inner : values outcome call.args with
  | ready _ => exact settled_of_values inner
  | interrupted _ | failed _ =>
    rw [inner] at ready
    cases ready

theorem argumentValues_ne_interrupted {call : Call}
    (settled : Settled outcome (Tree.signalsAll call.args)) (reason : String) :
    argumentValues outcome call ≠ .interrupted reason := by
  rw [argumentValues]
  exact Outcome.andThen_ofExcept_ne_interrupted (values_ne_interrupted settled) _ reason

end Expr

namespace Engine

variable {σ : Type}

/-- Nothing has happened but that providers were read or have acted by themselves. -/
def Aside (e e' : Engine σ) : Prop :=
  ∃ foreign events, (∀ event ∈ events, event.isAside) ∧
    e' = { e with foreign, journal := e.journal ++ events }

namespace Aside

theorem refl (e : Engine σ) : Aside e e :=
  ⟨e.foreign, [], by simp, by simp⟩

theorem trans {a b c : Engine σ} (ab : Aside a b) (bc : Aside b c) : Aside a c := by
  obtain ⟨_, first, firstAside, rfl⟩ := ab
  obtain ⟨foreign, rest, restAside, rfl⟩ := bc
  refine ⟨foreign, first ++ rest, ?_, by simp⟩
  intro event member
  rcases List.mem_append.1 member with inFirst | inRest
  · exact firstAside event inFirst
  · exact restAside event inRest

theorem note {event : Event} (aside : event.isAside) (e : Engine σ) : Aside e (e.note event) :=
  ⟨e.foreign, [event], by simpa using aside, rfl⟩

theorem foreign (e : Engine σ) (foreign : σ) : Aside e { e with foreign } :=
  ⟨foreign, [], by simp, by simp⟩

theorem devices {e e' : Engine σ} (aside : Aside e e') : e'.devices = e.devices := by
  obtain ⟨_, _, _, rfl⟩ := aside
  rfl

theorem dispatcher {e e' : Engine σ} (aside : Aside e e') : e'.dispatcher = e.dispatcher := by
  obtain ⟨_, _, _, rfl⟩ := aside
  rfl

end Aside

/-! ## Signals without devices -/

/-- The outcome of a signal, leaving aside what reading it does. -/
def outcome (e : Engine σ) (signal : Ref) : Outcome Value :=
  (e.signalOutcome signal).1

theorem provider_of_no_devices {e : Engine σ} (bare : e.devices = []) (name : String)
    (device : Device σ) : e.provider name ≠ .ok (.device device) := by
  unfold provider
  rw [bare]
  split
  · simp
  · split
    · simp
    · split <;> simp

/-- Without devices the outcome of a signal depends on its own value only. -/
theorem outcome_eq {a b : Engine σ} (bare : a.devices = []) (devices : b.devices = a.devices)
    {signal : Ref}
    (globals : ∀ name, signal.name = Globals.fullName name →
      b.globals.get? name = a.globals.get? name)
    (ticker : signal.name = Diagnostics.tickerSignal → b.ticker = a.ticker) :
    b.outcome signal = a.outcome signal := by
  have same : b.provider signal.name = a.provider signal.name := by
    unfold provider
    rw [devices]
  unfold outcome signalOutcome
  rw [same]
  split
  · rfl
  · split
    · rename_i name parsed
      simp only [Globals.outcome, globals name (Globals.eq_fullName_of_localName parsed)]
    · rfl
  · split
    · rename_i known
      unfold Diagnostics.checkSignal at known
      split at known
      · rename_i name
        rw [ticker name]
      · cases known
    · rfl
  · rename_i device known
    exact absurd known (provider_of_no_devices bare _ device)

/-- Signals that are not put off stay so as long as no global signal is taken back. -/
theorem settled_of_grown {a b : Engine σ} (bare : a.devices = []) (devices : b.devices = a.devices)
    (grown : ∀ name, (a.globals.get? name).isSome → (b.globals.get? name).isSome)
    {bindings : List SignalBinding} (settled : Expr.Settled a.outcome bindings) :
    Expr.Settled b.outcome bindings := by
  intro binding member reason putOff
  have before := settled binding member
  have same : b.provider binding.ref.name = a.provider binding.ref.name := by
    unfold provider
    rw [devices]
  unfold outcome signalOutcome at before putOff
  rw [same] at putOff
  cases known : a.provider binding.ref.name with
  | error _ => simp [known] at putOff
  | ok provider =>
    cases provider with
    | device device => exact provider_of_no_devices bare _ device known
    | diagnostics =>
      simp only [known] at putOff
      split at putOff <;> cases putOff
    | globals =>
      simp only [known] at before putOff
      split at putOff
      · rename_i name parsed
        simp only [parsed] at before
        unfold Globals.outcome at before putOff
        have grown := grown name
        cases had : a.globals.get? name with
        | none =>
          simp only [had] at before
          exact before _ rfl
        | some value =>
          rw [had] at grown
          obtain ⟨value', has⟩ := Option.isSome_iff_exists.1 (grown rfl)
          rw [has] at putOff
          cases putOff
      · cases putOff

theorem outcome_congr {a b : Engine σ} (bare : a.devices = []) (devices : b.devices = a.devices)
    (globals : b.globals = a.globals) (ticker : b.ticker = a.ticker) : b.outcome = a.outcome :=
  funext fun _ => outcome_eq bare devices (fun _ _ => by rw [globals]) fun _ => ticker

theorem outcome_note {e : Engine σ} (bare : e.devices = []) (event : Event) :
    (e.note event).outcome = e.outcome := by
  refine outcome_congr bare ?_ ?_ ?_ <;> rfl

theorem Aside.outcome {e e' : Engine σ} (aside : Aside e e') (bare : e.devices = []) :
    e'.outcome = e.outcome := by
  obtain ⟨_, _, _, rfl⟩ := aside
  exact outcome_congr bare rfl rfl rfl

/-! ## Runs of evaluations -/

theorem read_run (signal : Ref) (e : Engine σ) :
    ∃ e₁, read signal e = some (e.outcome signal, e₁) ∧ Aside e e₁ :=
  ⟨_, rfl, .trans (.foreign e _) (.note rfl _)⟩

mutual

theorem evaluate_run : ∀ (expr : Expr) (e : Engine σ),
    ∃ o e₁, expr.evaluate read e = some (o, e₁) ∧ Aside e e₁ ∧
      (e.devices = [] → o = expr.value e.outcome)
  | .constant v, e => by
    rw [Expr.evaluate]
    exact ⟨_, e, rfl, .refl e, fun _ => (Expr.value_constant _ v).symm⟩
  | .signal binding, e => by
    obtain ⟨e₁, ran, aside⟩ := read_run binding.ref e
    rw [Expr.evaluate, Expr.readChecked, Run.bind_apply, ran]
    exact ⟨_, e₁, rfl, aside, fun _ => by rw [Expr.value_signal]⟩
  | .operator op operands, e => by
    obtain ⟨os, e₁, ran, aside, same⟩ := evaluateAll_run operands e
    rw [Expr.evaluate, Run.bind_apply, ran]
    exact ⟨_, e₁, rfl, aside, fun bare => by rw [Expr.value_operator, ← same bare]⟩
  | .action once binding args, e => by
    rw [Expr.evaluate]
    exact ⟨_, e, rfl, .refl e, fun _ => (Expr.value_action _ once binding args).symm⟩

theorem evaluateAll_run : ∀ (exprs : List Expr) (e : Engine σ),
    ∃ os e₁, Expr.evaluateAll read exprs e = some (os, e₁) ∧ Aside e e₁ ∧
      (e.devices = [] → os = Expr.values e.outcome exprs)
  | [], e => by
    rw [Expr.evaluateAll]
    exact ⟨_, e, rfl, .refl e, fun _ => (Expr.values_nil _).symm⟩
  | expr :: exprs, e => by
    obtain ⟨o, e₁, ran, aside, same⟩ := evaluate_run expr e
    obtain ⟨os, e₂, ranRest, asideRest, sameRest⟩ := evaluateAll_run exprs e₁
    have rest : e.devices = [] → os = Expr.values e.outcome exprs := fun bare => by
      rw [← aside.outcome bare]
      exact sameRest (aside.devices.trans bare)
    rw [Expr.evaluateAll, Run.bind_apply, ran]
    cases o with
    | failed error =>
      exact ⟨_, e₁, rfl, aside, fun bare => by rw [Expr.values_cons, ← same bare]⟩
    | ready v =>
      refine ⟨os.map fun vs => v :: vs, e₂, ?_, aside.trans asideRest, fun bare => ?_⟩
      · exact Run.bind_eq_some_iff.2 ⟨os, e₂, ranRest, rfl⟩
      · rw [Expr.values_cons, ← same bare, ← rest bare]
    | interrupted reason =>
      cases os with
      | failed error =>
        refine ⟨.failed error, e₂, ?_, aside.trans asideRest, fun bare => ?_⟩
        · exact Run.bind_eq_some_iff.2 ⟨_, e₂, ranRest, rfl⟩
        · rw [Expr.values_cons, ← same bare, ← rest bare]
      | ready _ | interrupted _ =>
        refine ⟨.interrupted reason, e₂, ?_, aside.trans asideRest, fun bare => ?_⟩
        · exact Run.bind_eq_some_iff.2 ⟨_, e₂, ranRest, rfl⟩
        · rw [Expr.values_cons, ← same bare, ← rest bare]

end

theorem arguments_run (call : Call) (e : Engine σ) :
    ∃ os e₁, Expr.arguments read call e = some (os, e₁) ∧ Aside e e₁ ∧
      (e.devices = [] → os = Expr.argumentValues e.outcome call) := by
  obtain ⟨os, e₁, ran, aside, same⟩ := evaluateAll_run call.args e
  refine ⟨_, e₁, Run.bind_eq_some_iff.2 ⟨os, e₁, ran, rfl⟩, aside, fun bare => ?_⟩
  rw [Expr.argumentValues, ← same bare]

end Engine

end SignalRules
