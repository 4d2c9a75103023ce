import SignalRules.Proofs.Session

/-! # Conditions at rest

Changes nest: while the listeners of one signal are told of it, their actions may change others, or
the same again. When a command has succeeded, every active rule has been checked after the last
change of each of its signals all the same, and remembers what its condition says now.

Within a cascade this cannot hold of every rule. What holds is that no task makes a rule stale that
was not stale before, and that each task leaves the rules fresh that it checks.
-/

namespace SignalRules

/-- The outcome of an action of this rule. -/
def Event.attempt? (id : ListenerId) : Event → Option (Outcome Expr.Completion)
  | .fired rule outcome => if rule = id then some outcome else none
  | _ => none

/-- What came of the actions of a rule, the oldest first. -/
def attempts (id : ListenerId) (journal : List Event) : List (Outcome Expr.Completion) :=
  journal.filterMap (Event.attempt? id)

theorem attempts_append (id : ListenerId) (first rest : List Event) :
    attempts id (first ++ rest) = attempts id first ++ attempts id rest :=
  List.filterMap_append

theorem attempts_append_of_none {id : ListenerId} {events : List Event}
    (none : ∀ event ∈ events, event.attempt? id = none) (journal : List Event) :
    attempts id (journal ++ events) = attempts id journal := by
  have nothing : attempts id events = [] := List.filterMap_eq_nil_iff.2 none
  rw [attempts_append, nothing, List.append_nil]

theorem Event.attempt?_of_isAside {event : Event} (aside : event.isAside) (id : ListenerId) :
    event.attempt? id = none := by
  cases event <;> first | rfl | cases aside

theorem Event.attempt?_of_isSetup {event : Event} (setup : event.isSetup) (id : ListenerId) :
    event.attempt? id = none := by
  cases event <;> first | rfl | cases setup

/-- The rules that are checked whatever else happens. -/
def Task.targets : Task → List ListenerId
  | .check id => [id]
  | .write _ _ => []
  | .deliver callbacks => callbacks.map Callback.listener
  | .schedule callback => [callback.listener]

namespace Engine

variable {σ : Type}

/-! ## Rules that a step does not concern -/

/-- Across the step the rule is the same, its action has not been tried, and its condition, if that
matters, says what it said. -/
structure Spared (id : ListenerId) (e e' : Engine σ) : Prop where
  rule : e'.rule? id = e.rule? id
  attempts : attempts id e'.journal = attempts id e.journal
  truth : ∀ rule, e.rule? id = some rule → rule.state = .active →
    rule.condition.truth e'.outcome = rule.condition.truth e.outcome

namespace Spared

theorem trans {id : ListenerId} {a b c : Engine σ} (ab : Spared id a b) (bc : Spared id b c) :
    Spared id a c where
  rule := bc.rule.trans ab.rule
  attempts := bc.attempts.trans ab.attempts
  truth rule found active :=
    (bc.truth rule (ab.rule.trans found) active).trans (ab.truth rule found active)

theorem of_same {id : ListenerId} {e e' : Engine σ} (bare : e.devices = [])
    (devices : e'.devices = e.devices) (globals : e'.globals = e.globals)
    (ticker : e'.ticker = e.ticker) (rule : e'.rule? id = e.rule? id)
    (attempts : SignalRules.attempts id e'.journal = SignalRules.attempts id e.journal) :
    Spared id e e' :=
  ⟨rule, attempts, fun _ _ _ => by rw [outcome_congr bare devices globals ticker]⟩

theorem of_aside {id : ListenerId} {e e' : Engine σ} (bare : e.devices = [])
    (aside : Aside e e') : Spared id e e' := by
  obtain ⟨_, events, asides, rfl⟩ := aside
  exact of_same bare rfl rfl rfl rfl <| attempts_append_of_none
    (fun event member => Event.attempt?_of_isAside (asides event member) id) e.journal

theorem modify {id other : ListenerId} {e : Engine σ} (bare : e.devices = []) (ne : id ≠ other)
    (f : Rule → Rule) : Spared id e (e.modifyRule other f) :=
  of_same bare (by rw [modifyRule_eq]) (by rw [modifyRule_eq]) (by rw [modifyRule_eq])
    (rule?_modifyRule_of_ne e ne f) (by rw [modifyRule_eq])

theorem note {id : ListenerId} {e : Engine σ} (bare : e.devices = []) {event : Event}
    (none : event.attempt? id = none) : Spared id e (e.note event) :=
  of_same bare rfl rfl rfl rfl (attempts_append_of_none (by simpa using none) _)

theorem conclude {id other : ListenerId} {e e' : Engine σ} (bare : e.devices = [])
    (ne : id ≠ other) {before : Nat} {outcome : Outcome Expr.Completion}
    {result : Except ScriptError Unit}
    (concluded : (e.note (.fired other outcome)).conclude other before outcome = (result, e')) :
    Spared id e e' := by
  have noted : Spared id e (e.note (.fired other outcome)) :=
    note bare (by simp [Event.attempt?, ne.symm])
  have bareStill : (e.note (.fired other outcome)).devices = [] := bare
  obtain ⟨_, _, rfl⟩ := settled_of_concluded concluded
  exact noted.trans (modify bareStill ne _)

end Spared

/-! ## Fresh rules -/

/-- If the rule is active, it remembers whether its condition is true now, except that after its
action was put off it forgets. A strictly fresh rule has not forgotten. -/
def Fresh (strict : Bool) (e : Engine σ) (id : ListenerId) : Prop :=
  ∀ rule, e.rule? id = some rule → rule.state = .active →
    (rule.held = true → rule.condition.truth e.outcome = .ready true) ∧
    (rule.condition.truth e.outcome = .ready true → rule.held = false →
      strict = false ∧ ∃ reason, (attempts id e.journal).getLast? = some (.interrupted reason))

theorem Fresh.of_not_active {strict : Bool} {e : Engine σ} {id : ListenerId}
    (resting : ∀ rule, e.rule? id = some rule → rule.state ≠ .active) : Fresh strict e id :=
  fun rule found active => absurd active (resting rule found)

theorem Fresh.spared {strict : Bool} {e e' : Engine σ} {id : ListenerId}
    (fresh : Fresh strict e id) (spared : Spared id e e') : Fresh strict e' id := by
  intro rule found active
  rw [spared.rule] at found
  rw [spared.truth rule found active, spared.attempts]
  exact fresh rule found active

/-- A rule that remembers what its condition says is fresh, however its action has ended. -/
theorem Fresh.of_held {strict : Bool} {e : Engine σ} {id : ListenerId} {rule : Rule}
    (found : e.rule? id = some rule) (same : rule.condition.truth e.outcome = .ready rule.held) :
    Fresh strict e id := by
  intro rule' found' _
  rw [found] at found'
  cases found'
  refine ⟨fun held => by rw [same, held], fun holds notHeld => ?_⟩
  rw [same, notHeld] at holds
  cases holds

/-- To be strictly fresh is a matter of the rule and its condition alone. -/
theorem Fresh.of_strict {e e' : Engine σ} {id : ListenerId} (fresh : Fresh true e id)
    (rule : e'.rule? id = e.rule? id) (outcomes : e'.outcome = e.outcome) (strict : Bool) :
    Fresh strict e' id := by
  intro rule' found active
  rw [rule] at found
  rw [outcomes]
  obtain ⟨held, forgotten⟩ := fresh rule' found active
  exact ⟨held, fun holds notHeld => absurd (forgotten holds notHeld).1 nofun⟩

/-- A rule whose action was put off last may forget that its condition is true. -/
theorem Fresh.of_forgotten {e : Engine σ} {id : ListenerId} {reason : String}
    (notHeld : ∀ rule, e.rule? id = some rule → rule.held = false)
    (last : (attempts id e.journal).getLast? = some (.interrupted reason)) :
    Fresh false e id := by
  intro rule found _
  have notHeld := notHeld rule found
  refine ⟨fun held => ?_, fun _ _ => ⟨rfl, reason, last⟩⟩
  rw [notHeld] at held
  cases held

/-! ## What can be told -/

theorem settled_of_truth {outcome : Ref → Outcome Value} {condition : Expr} {holds : Bool}
    (ready : condition.truth outcome = .ready holds) :
    Expr.Settled outcome condition.signals := by
  unfold Expr.truth at ready
  cases value : condition.value outcome with
  | ready v => exact Expr.settled_of_value value
  | interrupted _ | failed _ =>
    rw [value] at ready
    cases ready

theorem truth_ne_interrupted {outcome : Ref → Outcome Value} {condition : Expr}
    (settled : Expr.Settled outcome condition.signals) (reason : String) :
    condition.truth outcome ≠ .interrupted reason :=
  Outcome.andThen_ofExcept_ne_interrupted (Expr.value_ne_interrupted settled) _ reason

theorem truth_congr {f g : Ref → Outcome Value} {condition : Expr}
    (same : ∀ binding ∈ condition.signals, f binding.ref = g binding.ref) :
    condition.truth f = condition.truth g := by
  rw [Expr.truth, Expr.truth, Expr.value_congr same]

/-- What a rule remembers of its condition can be told at any later time. -/
def Known (e : Engine σ) : Prop :=
  ∀ id rule, e.rule? id = some rule → rule.held = true →
    Expr.Settled e.outcome rule.condition.signals

namespace Known

theorem of_same {e e' : Engine σ} (known : Known e) (bare : e.devices = [])
    (devices : e'.devices = e.devices) (globals : e'.globals = e.globals)
    (ticker : e'.ticker = e.ticker) (rules : ∀ id, e'.rule? id = e.rule? id) : Known e' := by
  intro id rule found held
  rw [outcome_congr bare devices globals ticker]
  exact known id rule (rules id ▸ found) held

theorem of_aside {e e' : Engine σ} (known : Known e) (bare : e.devices = [])
    (aside : Aside e e') : Known e' := by
  obtain ⟨_, _, _, rfl⟩ := aside
  exact known.of_same bare rfl rfl rfl fun _ => rfl

theorem put {e : Engine σ} (known : Known e) (bare : e.devices = []) (name : String)
    (value : Value) : Known { e with globals := e.globals.put name value } := by
  intro id rule found held
  refine settled_of_grown bare ?_ (Framed.put e name value).globals (known id rule found held)
  rfl

theorem modify {e : Engine σ} (known : Known e) (bare : e.devices = []) {id : ListenerId}
    {f : Rule → Rule} (same : ∀ rule, (f rule).condition = rule.condition)
    (told : ∀ rule, e.rule? id = some rule → (f rule).held = true →
      Expr.Settled e.outcome rule.condition.signals) : Known (e.modifyRule id f) := by
  intro other rule found held
  rw [outcome_modifyRule bare]
  by_cases ne : other = id
  · subst ne
    obtain ⟨old, found', rfl⟩ := of_rule?_modifyRule found
    rw [same]
    exact told old found' held
  · rw [rule?_modifyRule_of_ne e ne] at found
    exact known other rule found held

theorem conclude {e e' : Engine σ} (known : Known e) (bare : e.devices = []) {id : ListenerId}
    {before : Nat} {outcome : Outcome Expr.Completion} {result : Except ScriptError Unit}
    (concluded : (e.note (.fired id outcome)).conclude id before outcome = (result, e')) :
    Known e' := by
  have noted : Known (e.note (.fired id outcome)) := known.of_same bare rfl rfl rfl fun _ => rfl
  have bareStill : (e.note (.fired id outcome)).devices = [] := bare
  obtain ⟨f, settles, rfl⟩ := settled_of_concluded concluded
  refine noted.modify bareStill (fun rule => ?_) fun rule found held => ?_
  · obtain ⟨_, _, _, same⟩ := settles.parts rule
    rw [same]
  · exact noted id rule found (settles.held rule held)

end Known

/-- A rule that has just been judged may remember what its condition says. -/
theorem Known.hold {e e' : Engine σ} {id : ListenerId} {rule : Rule} {holds : Bool}
    (known : Known e) (bare : e.devices = []) (judged : Judged e id rule (.ready holds) e') :
    Known (e'.hold id holds) := by
  refine (known.of_aside bare judged.aside).modify (judged.bare bare) (fun _ => rfl) ?_
  intro rule' found _
  rw [judged.still_found] at found
  cases found
  rw [judged.aside.outcome bare]
  exact settled_of_truth (judged.truth_eq bare).symm

theorem Cascade.known {task : Task} {e e' : Engine σ} {result : Except ScriptError Unit}
    (cascade : Cascade task e result e') (bare : e.devices = []) (known : Known e) :
    Known e' := by
  induction cascade with
  | asleep _ => exact known
  | unclear judged => exact known.of_aside bare judged.aside
  | broken judged =>
    have aside := known.of_aside bare judged.aside
    exact aside.modify (judged.bare bare) (fun _ => rfl) (aside _)
  | steady judged _ => exact known.hold bare judged
  | tried judged _ attempt concluded =>
    have bareHeld := judged.bare_hold bare true
    have attempted := (known.hold bare judged).of_aside bareHeld attempt.aside
    exact attempted.conclude (attempt.aside.devices.trans bareHeld) concluded
  | wrote judged _ writing inner aside _ concluded ih =>
    have bareHeld := judged.bare_hold bare true
    have bareWriting := writing.aside.devices.trans bareHeld
    have bareWritten := inner.framed.devices.trans bareWriting
    have writingStill := (known.hold bare judged).of_aside bareHeld writing.aside
    have written := (ih bareWriting writingStill).of_aside bareWritten aside
    exact written.conclude (aside.devices.trans bareWritten) concluded
  | unchanged _ => exact known.put bare _ _
  | changed _ _ inner => exact inner bare (known.put bare _ _)
  | nil => exact known
  | cons first _ ihFirst ihRest =>
    exact ihRest (first.framed.devices.trans bare) (ihFirst bare known)
  | stop _ ih => exact ih bare known
  | refused _ => exact known.of_same bare rfl rfl rfl fun _ => rfl
  | taken _ inner ih =>
    have taken := ih bare (known.of_same bare rfl rfl rfl fun _ => rfl)
    exact taken.of_same (inner.framed.devices.trans bare) rfl rfl rfl fun _ => rfl

/-! ## Cascades keep rules fresh -/

/-- No argument of the action of a rule is put off. -/
def Able (e : Engine σ) (id : ListenerId) : Prop :=
  ∀ rule, e.rule? id = some rule → Expr.Settled e.outcome (Tree.signalsAll rule.action.args)

theorem Able.framed {e e' : Engine σ} {id : ListenerId} (able : Able e id)
    (bare : e.devices = []) (framed : Framed e e') : Able e' id := by
  intro rule' found'
  obtain ⟨rule, found, follows⟩ := framed.was_found found'
  rw [follows.action]
  exact settled_of_grown bare framed.devices framed.globals (able rule found)

/-- Where a session stands between two commands, and within them. -/
structure Standing (e : Engine σ) : Prop where
  bare : e.devices = []
  subscribed : ∀ id rule, e.rule? id = some rule → rule.state = .active →
    ∀ signal ∈ rule.signals, id ∈ e.subscriptions.listeners signal
  known : Known e

theorem Standing.framed {e e' : Engine σ} (standing : Standing e) (framed : Framed e e')
    (known : Known e') : Standing e' where
  bare := framed.devices.trans standing.bare
  subscribed := by
    intro id rule' found' active signal member
    obtain ⟨rule, found, follows⟩ := framed.was_found found'
    rw [framed.subscriptions]
    rw [follows.signals] at member
    exact standing.subscribed id rule found (follows.was_active active) signal member
  known := known

theorem Standing.aside {e e' : Engine σ} (standing : Standing e) (aside : Aside e e') :
    Standing e' :=
  standing.framed (.of_aside aside) (standing.known.of_aside standing.bare aside)

theorem Standing.hold {e e' : Engine σ} {id : ListenerId} {rule : Rule} {holds : Bool}
    (standing : Standing e) (judged : Judged e id rule (.ready holds) e') :
    Standing (e'.hold id holds) :=
  standing.framed (judged.framed_hold holds) (standing.known.hold standing.bare judged)

theorem Standing.cascade {task : Task} {e e' : Engine σ} {result : Except ScriptError Unit}
    (standing : Standing e) (cascade : Cascade task e result e') : Standing e' :=
  standing.framed cascade.framed (cascade.known standing.bare standing.known)

theorem Judged.outcome_hold {e e' : Engine σ} {id : ListenerId} {rule : Rule}
    {truth : Outcome Bool} (judged : Judged e id rule truth e') (bare : e.devices = [])
    (held : Bool) : (e'.hold id held).outcome = e.outcome :=
  (outcome_modifyRule (judged.bare bare) id _).trans (judged.aside.outcome bare)

/-- To judge one rule does not concern another. -/
theorem Judged.spared {e e' : Engine σ} {id other : ListenerId} {rule : Rule}
    {truth : Outcome Bool} (judged : Judged e id rule truth e') (bare : e.devices = [])
    (ne : other ≠ id) (held : Bool) : Spared other e (e'.hold id held) :=
  (Spared.of_aside bare judged.aside).trans (.modify (judged.bare bare) ne _)

/-- The arguments of a rule that writes were ready. -/
theorem Judged.able_hold {e e' e'' : Engine σ} {id : ListenerId} {rule : Rule}
    {truth : Outcome Bool} {name : String} {value : Value} (judged : Judged e id rule truth e')
    (bare : (e'.hold id true).devices = [])
    (writing : Writing (e'.hold id true) rule.action name value e'') :
    Able (e'.hold id true) id := by
  intro rule' found
  obtain ⟨old, found', rfl⟩ := of_rule?_modifyRule found
  rw [judged.still_found] at found'
  cases found'
  exact Expr.settled_of_argumentValues (writing.arguments bare)

/-- A rule that has just been judged is fresh. -/
theorem Judged.fresh {e e' : Engine σ} {id : ListenerId} {rule : Rule} {holds : Bool}
    (judged : Judged e id rule (.ready holds) e') (bare : e.devices = []) (strict : Bool) :
    Fresh strict (e'.hold id holds) id := by
  refine Fresh.of_held (rule?_modifyRule_self judged.still_found _) ?_
  rw [judged.outcome_hold bare]
  exact (judged.truth_eq bare).symm

/-- What a successful action leaves of the freshness of its rule. -/
theorem Fresh.conclude {e e' : Engine σ} {id : ListenerId} {strict : Bool} {before : Nat}
    {outcome : Outcome Expr.Completion} (bare : e.devices = []) (fresh : Fresh true e id)
    (putOff : ∀ reason, outcome = .interrupted reason → strict = false)
    (concluded : (e.note (.fired id outcome)).conclude id before outcome = (.ok (), e')) :
    Fresh strict e' id := by
  unfold Engine.conclude at concluded
  split at concluded
  · cases concluded
    refine fresh.of_strict ?_ (outcome_note bare _) strict
    rfl
  · cases concluded
    refine .of_not_active fun rule found => ?_
    obtain ⟨old, _, rfl⟩ := of_rule?_modifyRule found
    exact nofun
  · rename_i reason
    cases concluded
    rw [putOff reason rfl]
    have last : (attempts id
        ((e.note (.fired id (.interrupted reason))).hold id false).journal).getLast? =
          some (.interrupted reason) := by
      rw [hold, modifyRule_eq]
      simp [note, attempts, Event.attempt?]
    refine .of_forgotten (fun rule found => ?_) last
    obtain ⟨old, _, rfl⟩ := of_rule?_modifyRule found
    rfl
  · split at concluded <;> cases concluded

/-- A condition that is put off was never known to be true. -/
theorem Judged.fresh_unclear {e e' : Engine σ} {id : ListenerId} {rule : Rule} {reason : String}
    (judged : Judged e id rule (.interrupted reason) e') (standing : Standing e) (strict : Bool) :
    Fresh strict e' id := by
  have unclear := judged.truth_eq standing.bare
  intro rule' found _
  rw [judged.still_found] at found
  cases found
  rw [judged.aside.outcome standing.bare, ← unclear]
  refine ⟨fun held => ?_, nofun⟩
  have settled := standing.known id rule judged.found held
  exact absurd unclear.symm (truth_ne_interrupted settled reason)

/-- When a signal has changed, a rule is fresh as before or it is about to be told. -/
theorem Standing.fresh_or_told {e e' : Engine σ} (standing : Standing e) {signal : String}
    {strict : Bool} {id : ListenerId} (fresh : Fresh strict e id)
    (rule : e'.rule? id = e.rule? id) (journal : e'.journal = e.journal)
    (outcomes : ∀ ref : Ref, ref.name ≠ signal → e'.outcome ref = e.outcome ref) :
    Fresh strict e' id ∨ id ∈ (e.subscriptions.callbacks signal).map Callback.listener := by
  by_cases reader : ∃ rule, e.rule? id = some rule ∧ rule.state = .active ∧
      ∃ binding ∈ rule.condition.signals, binding.ref.name = signal
  · obtain ⟨rule, found, active, binding, member, rfl⟩ := reader
    right
    have listened : ⟨binding.ref.name, rule.host⟩ ∈ rule.signals :=
      List.mem_map_of_mem (Expr.mem_signalNames member)
    have told := Subscriptions.mem_callbacks (standing.subscribed id rule found active _ listened)
    exact List.mem_map.2 ⟨_, told, rfl⟩
  · left
    refine fresh.spared ⟨rule, by rw [journal], fun rule found active => ?_⟩
    refine truth_congr fun binding member => outcomes binding.ref fun same => ?_
    exact reader ⟨rule, found, active, binding, member, same⟩

theorem outcome_put {e : Engine σ} (bare : e.devices = []) {name : String} {value : Value}
    {signal : Ref} (other : signal.name ≠ Globals.fullName name) :
    ({ e with globals := e.globals.put name value } : Engine σ).outcome signal =
      e.outcome signal := by
  refine outcome_eq bare ?_ (fun written same => ?_) fun _ => ?_
  · rfl
  · have ne : written ≠ name := by
      rintro rfl
      exact other same
    rw [Globals.get?_put, if_neg ne]
  · rfl

theorem outcome_put_same {e : Engine σ} (bare : e.devices = []) {name : String} {value : Value}
    (had : e.globals.get? name = some value) :
    ({ e with globals := e.globals.put name value } : Engine σ).outcome = e.outcome := by
  funext signal
  refine outcome_eq bare ?_ (fun written _ => ?_) fun _ => ?_
  · rfl
  · rw [Globals.get?_put]
    split
    · rename_i same
      rw [same, had]
    · rfl
  · rfl

section

variable {e e₁ e₂ e' : Engine σ} {id other : ListenerId} {rule : Rule} {before : Nat}
  {outcome : Outcome Expr.Completion} {name : String} {value : Value}

/-- A rule whose action has just been tried is fresh. -/
theorem Judged.fresh_tried {strict : Bool} (judged : Judged e id rule (.ready true) e₁)
    (bare : e.devices = []) (able : strict = true → Able e id)
    (attempt : Attempt (e₁.hold id true) rule.action outcome e₂)
    (concluded : (e₂.note (.fired id outcome)).conclude id before outcome = (.ok (), e')) :
    Fresh strict e' id := by
  have bareHeld := judged.bare_hold bare true
  have held := (judged.fresh bare true).spared (.of_aside bareHeld attempt.aside)
  refine held.conclude (attempt.aside.devices.trans bareHeld) (fun reason putOff => ?_) concluded
  refine Bool.eq_false_iff.2 fun isStrict => ?_
  have settled := able isStrict rule judged.found
  rw [← judged.outcome_hold bare true] at settled
  exact attempt.notPutOff bareHeld settled reason putOff

/-- To try the action of one rule does not concern another. -/
theorem Judged.spared_tried {result : Except ScriptError Unit}
    (judged : Judged e id rule (.ready true) e₁) (bare : e.devices = []) (ne : other ≠ id)
    (attempt : Attempt (e₁.hold id true) rule.action outcome e₂)
    (concluded : (e₂.note (.fired id outcome)).conclude id before outcome = (result, e')) :
    Spared other e e' := by
  have bareHeld := judged.bare_hold bare true
  have tried := (judged.spared bare ne true).trans (.of_aside bareHeld attempt.aside)
  exact tried.trans (.conclude (attempt.aside.devices.trans bareHeld) ne concluded)

/-- While the action of a rule writes, that rule is strictly fresh. -/
theorem Judged.fresh_writing (judged : Judged e id rule (.ready true) e₁) (bare : e.devices = [])
    (writing : Writing (e₁.hold id true) rule.action name value e₂) : Fresh true e₂ id :=
  (judged.fresh bare true).spared (.of_aside (judged.bare_hold bare true) writing.aside)

/-- The arguments of an action that writes were ready, so no attempt inside can be put off. -/
theorem Judged.able_writing (judged : Judged e id rule (.ready true) e₁) (bare : e.devices = [])
    (writing : Writing (e₁.hold id true) rule.action name value e₂) : Able e₂ id := by
  have bareHeld := judged.bare_hold bare true
  exact (judged.able_hold bareHeld writing).framed bareHeld (.of_aside writing.aside)

/-- To begin the action of one rule does not concern another. -/
theorem Judged.spared_writing (judged : Judged e id rule (.ready true) e₁)
    (bare : e.devices = []) (ne : other ≠ id)
    (writing : Writing (e₁.hold id true) rule.action name value e₂) : Spared other e e₂ :=
  (judged.spared bare ne true).trans (.of_aside (judged.bare_hold bare true) writing.aside)

end

/-! ### One step of a cascade -/

/-- If the task succeeds, it makes no rule stale, and the rules that it checks are fresh in the end.
A rule none of whose arguments is put off even stays strictly fresh. -/
def Refreshes (task : Task) (e : Engine σ) (result : Except ScriptError Unit) (e' : Engine σ) :
    Prop :=
  result = .ok () → Standing e → ∀ strict id, (strict = true → Able e id) →
    (Fresh strict e id ∨ id ∈ task.targets) → Fresh strict e' id

/-- A check must leave its own rule fresh and is to spare the others, or at least not make them
stale. -/
theorem Refreshes.check {e e' : Engine σ} {checked : ListenerId} {result : Except ScriptError Unit}
    (own : result = .ok () → Standing e → ∀ strict, (strict = true → Able e checked) →
      Fresh strict e' checked)
    (others : result = .ok () → Standing e → ∀ strict id, id ≠ checked →
      (strict = true → Able e id) → Fresh strict e id → Fresh strict e' id) :
    Refreshes (.check checked) e result e' := by
  intro ok standing strict id able before
  by_cases same : id = checked
  · subst same
    exact own ok standing strict able
  · rcases before with fresh | target
    · exact others ok standing strict id same able fresh
    · exact absurd (List.mem_singleton.1 target) same

section

variable {e e₁ e₂ e₃ e₄ e' : Engine σ} {id : ListenerId} {rule : Rule}
  {outcome : Outcome Expr.Completion} {name : String} {value : Value}
  {written result : Except ScriptError Unit}

theorem Refreshes.unclear {reason : String}
    (judged : Judged e id rule (.interrupted reason) e₁) :
    Refreshes (.check id) e (.ok ()) e₁ :=
  -- A condition that is put off has never been known, so there is nothing to be stale.
  .check (fun _ standing strict _ => judged.fresh_unclear standing strict)
    fun _ standing _ _ _ _ fresh => fresh.spared (.of_aside standing.bare judged.aside)

theorem Refreshes.steady {holds : Bool} (judged : Judged e id rule (.ready holds) e₁) :
    Refreshes (.check id) e (.ok ()) (e₁.hold id holds) :=
  .check (fun _ standing strict _ => judged.fresh standing.bare strict)
    fun _ standing _ _ ne _ fresh => fresh.spared (judged.spared standing.bare ne holds)

theorem Refreshes.tried (judged : Judged e id rule (.ready true) e₁)
    (attempt : Attempt (e₁.hold id true) rule.action outcome e₂)
    (concluded : (e₂.note (.fired id outcome)).conclude id e.dispatcher.failures outcome =
      (result, e')) : Refreshes (.check id) e result e' := by
  apply Refreshes.check
  case own =>
    rintro rfl standing strict able
    exact judged.fresh_tried standing.bare able attempt concluded
  case others =>
    rintro - standing strict other ne - fresh
    exact fresh.spared (judged.spared_tried standing.bare ne attempt concluded)

theorem Refreshes.wrote (judged : Judged e id rule (.ready true) e₁)
    (writing : Writing (e₁.hold id true) rule.action name value e₂)
    (cascade : Cascade (.write name value) e₂ written e₃)
    (inner : Refreshes (.write name value) e₂ written e₃) (aside : Aside e₃ e₄)
    (outcome_eq : outcome = (Outcome.ofExcept written).map fun _ => rule.action.completion)
    (concluded : (e₄.note (.fired id outcome)).conclude id e.dispatcher.failures outcome =
      (result, e')) : Refreshes (.check id) e result e' := by
  have isWritten (ok : result = .ok ()) : written = .ok () :=
    written_of_concluded (outcome_eq ▸ ok ▸ concluded)
  have framed := (judged.framed_hold true).trans (.of_aside writing.aside)
  have bareWritten (standing : Standing e) : e₃.devices = [] :=
    (framed.trans cascade.framed).devices.trans standing.bare
  have begun (standing : Standing e) : Standing e₂ := (standing.hold judged).aside writing.aside
  apply Refreshes.check
  case own =>
    intro ok standing strict _
    have bare := bareWritten standing
    have after := inner (isWritten ok) (begun standing) true id
      (fun _ => judged.able_writing standing.bare writing)
      (.inl (judged.fresh_writing standing.bare writing))
    subst ok
    refine (after.spared (.of_aside bare aside)).conclude (aside.devices.trans bare) ?_ concluded
    rintro reason rfl
    rw [isWritten rfl] at outcome_eq
    cases outcome_eq
  case others =>
    intro ok standing strict other ne able fresh
    have bare := bareWritten standing
    have after := inner (isWritten ok) (begun standing) strict other
      (fun isStrict => (able isStrict).framed standing.bare framed)
      (.inl (fresh.spared (judged.spared_writing standing.bare ne writing)))
    exact (after.spared (.of_aside bare aside)).spared
      (.conclude (aside.devices.trans bare) ne concluded)

theorem Refreshes.unchanged (had : e.globals.get? name = some value) :
    Refreshes (.write name value) e (.ok ()) { e with globals := e.globals.put name value } := by
  rintro - standing strict id - (fresh | target)
  · refine fresh.spared ⟨rfl, rfl, fun rule _ _ => ?_⟩
    rw [outcome_put_same standing.bare had]
  · cases target

/-- A change makes rules stale, but these are told of it. -/
theorem Refreshes.changed
    (inner : Refreshes (.deliver (e.subscriptions.callbacks (Globals.fullName name)))
      { e with globals := e.globals.put name value } result e') :
    Refreshes (.write name value) e result e' := by
  rintro ok standing strict id able (fresh | target)
  · have known := standing.known.put standing.bare name value
    refine inner ok (standing.framed (.put e name value) known) strict id
      (fun isStrict => (able isStrict).framed standing.bare (.put e name value)) ?_
    exact standing.fresh_or_told fresh rfl rfl fun ref => outcome_put standing.bare
  · cases target

theorem Refreshes.cons {callback : Callback} {callbacks : List Callback}
    (cascade : Cascade (.schedule callback) e (.ok ()) e₁)
    (first : Refreshes (.schedule callback) e (.ok ()) e₁)
    (rest : Refreshes (.deliver callbacks) e₁ result e') :
    Refreshes (.deliver (callback :: callbacks)) e result e' := by
  intro ok standing strict id able before
  refine rest ok (standing.cascade cascade) strict id
    (fun isStrict => (able isStrict).framed standing.bare cascade.framed) ?_
  rcases before with fresh | target
  · exact .inl (first rfl standing strict id able (.inl fresh))
  · rcases List.mem_cons.1 target with here | later
    · exact .inl (first rfl standing strict id able (.inr (List.mem_singleton.2 here)))
    · exact .inr later

/-- What the dispatcher notes of a callback concerns no rule. -/
theorem Refreshes.taken {callback : Callback}
    (inner : Refreshes (.check callback.listener) (e.takeUp callback) result e₁)
    (bare : e₁.devices = []) :
    Refreshes (.schedule callback) e result (e₁.leave callback result) := by
  intro ok standing strict id able before
  have begun : Spared id e (e.takeUp callback) :=
    .of_same standing.bare rfl rfl rfl rfl (attempts_append_of_none (by simp [Event.attempt?]) _)
  have ended : Spared id e₁ (e₁.leave callback result) :=
    .of_same bare rfl rfl rfl rfl (attempts_append_of_none (by simp [Event.attempt?]) _)
  have standingStill : Standing (e.takeUp callback) := standing.framed (.takeUp e callback)
    (standing.known.of_same standing.bare rfl rfl rfl fun _ => rfl)
  have after := inner ok standingStill strict id
    (fun isStrict => (able isStrict).framed standing.bare (.takeUp e callback))
    (before.imp_left (·.spared begun))
  exact after.spared ended

end

/-- No successful task makes a rule stale, and the rules that it checks are fresh in the end. -/
theorem Cascade.fresh {task : Task} {e e' : Engine σ} {result : Except ScriptError Unit}
    (cascade : Cascade task e result e') : Refreshes task e result e' := by
  induction cascade with
  | asleep resting => exact .check (fun _ _ _ _ => .of_not_active resting) fun _ _ _ _ _ _ => id
  | unclear judged => exact .unclear judged
  | steady judged _ => exact .steady judged
  | tried judged _ attempt concluded => exact .tried judged attempt concluded
  | wrote judged _ writing inner aside outcome_eq concluded ih =>
    exact .wrote judged writing inner ih aside outcome_eq concluded
  | unchanged had => exact .unchanged had
  | changed _ _ ih => exact .changed ih
  | nil =>
    rintro - _ strict id - (fresh | target)
    · exact fresh
    · cases target
  | cons first _ ihFirst ihRest => exact .cons first ihFirst ihRest
  | taken _ inner ih =>
    intro ok standing
    exact Refreshes.taken ih (inner.framed.devices.trans standing.bare) ok standing
  | broken | stop | refused => exact nofun

/-! ## Between commands -/

/-- No rule is stale. -/
structure Rested (e : Engine σ) : Prop where
  standing : Standing e
  fresh : ∀ id, Fresh false e id

theorem Rested.cascade {task : Task} {e e' : Engine σ} (rested : Rested e)
    (cascade : Cascade task e (.ok ()) e') : Rested e' where
  standing := rested.standing.cascade cascade
  fresh id := cascade.fresh rfl rested.standing false id nofun (.inl (rested.fresh id))

theorem Rested.create (config : Config) (foreign : σ) : Rested (create config foreign) := by
  have none := rule?_create config foreign
  exact
    { standing :=
        { bare := rfl
          subscribed := fun id rule found => by rw [none] at found; cases found
          known := fun id rule found => by rw [none] at found; cases found }
      fresh := fun id => .of_not_active fun rule found => by rw [none] at found; cases found }

/-- What holds of every rule that is not at rest holds still when a fresh rule is added. -/
theorem old_rule {e : Engine σ} {rule rule' : Rule} (isFresh : rule.IsFresh) {id : ListenerId}
    (found : (e.addListener (.rule rule)).2.rule? id = some rule') :
    e.rule? id = some rule' ∨ rule'.state ≠ .active ∧ rule'.held = false := by
  rw [rule?_addListener] at found
  split at found
  · cases found
    exact .inr ⟨by simp [isFresh.inactive], isFresh.notHeld⟩
  · exact .inl found

theorem Rested.listen {e : Engine σ} {rule : Rule} (rested : Rested e) (isFresh : rule.IsFresh) :
    Rested (e.addListener (.rule rule)).2 := by
  have outcomes : (e.addListener (.rule rule)).2.outcome = e.outcome := by
    refine outcome_congr rested.standing.bare ?_ ?_ ?_ <;> rfl
  refine ⟨⟨rested.standing.bare, fun id rule' found active => ?_, fun id rule' found held => ?_⟩,
    fun id rule' found active => ?_⟩
  · rcases old_rule isFresh found with old | ⟨resting, -⟩
    · exact rested.standing.subscribed id rule' old active
    · exact absurd active resting
  · rcases old_rule isFresh found with old | ⟨-, notHeld⟩
    · rw [outcomes]
      exact rested.standing.known id rule' old held
    · rw [notHeld] at held
      cases held
  · rcases old_rule isFresh found with old | ⟨resting, -⟩
    · rw [outcomes]
      exact rested.fresh id rule' old active
    · exact absurd active resting

theorem Rested.advance {e e' : Engine σ} (rested : Rested e)
    (cascade : Cascade (.deliver (e.subscriptions.callbacks Diagnostics.tickerSignal))
      { e with ticker := e.ticker.advance } (.ok ()) e') : Rested e' := by
  have standing : Standing { e with ticker := e.ticker.advance } :=
    { bare := rested.standing.bare
      subscribed := rested.standing.subscribed
      known := fun id rule found held => by
        refine settled_of_grown rested.standing.bare ?_ (fun _ => ?_)
          (rested.standing.known id rule found held)
        · rfl
        · exact (·) }
  refine ⟨standing.cascade cascade, fun id => cascade.fresh rfl standing false id nofun ?_⟩
  refine rested.standing.fresh_or_told (rested.fresh id) rfl rfl fun ref other => ?_
  refine outcome_eq rested.standing.bare ?_ (fun _ _ => ?_) (absurd · other) <;> rfl

theorem Rewired.spared {id other : ListenerId} {e e' : Engine σ} (rewired : Rewired id e e')
    (bare : e.devices = []) : Spared other e e' := by
  obtain ⟨_, _, events, _, setup, rfl⟩ := rewired
  exact .of_same bare rfl rfl rfl rfl <| attempts_append_of_none
    (fun event member => Event.attempt?_of_isSetup (setup event member) other) e.journal

/-- A change of one rule and its subscriptions, after which the rule is not held, lets the session
stand. -/
theorem Standing.rearrange {e e₁ : Engine σ} {id : ListenerId} (standing : Standing e)
    (rewired : Rewired id e e₁) {f : Rule → Rule}
    (same : ∀ rule, (f rule).signals = rule.signals ∧ (f rule).condition = rule.condition)
    (subscribed : ∀ rule, e.rule? id = some rule → (f rule).state = .active →
      ∀ signal ∈ rule.signals, id ∈ e₁.subscriptions.listeners signal)
    (held : ∀ rule, (f rule).held = true → rule.held = true) :
    Standing (e₁.modifyRule id f) := by
  obtain ⟨subscriptions, foreign, events, kept, setup, rfl⟩ := rewired
  have known : Known { e with subscriptions, foreign, journal := e.journal ++ events } :=
    standing.known.of_same standing.bare rfl rfl rfl fun _ => rfl
  refine ⟨(devices_modifyRule _ id f).trans standing.bare, ?_, ?_⟩
  · intro other rule found active signal member
    rw [subscriptions_modifyRule]
    by_cases ne : other = id
    · subst ne
      obtain ⟨old, found', rfl⟩ := of_rule?_modifyRule found
      rw [(same old).1] at member
      exact subscribed old found' active signal member
    · rw [rule?_modifyRule_of_ne _ ne] at found
      exact kept ne (standing.subscribed other rule found active signal member)
  · exact known.modify standing.bare (fun rule => (same rule).2) fun rule found isHeld =>
      known id rule found (held rule isHeld)

theorem Rested.activate {e e₁ e' : Engine σ} (rested : Rested e) {id : ListenerId} {rule : Rule}
    (found : e.rule? id = some rule) (rewired : Rewired id e e₁)
    (subscribed : ∀ signal ∈ rule.signals, id ∈ e₁.subscriptions.listeners signal)
    (cascade : Cascade (.check id) (e₁.start id) (.ok ()) e') : Rested e' := by
  have standing : Standing (e₁.start id) := by
    refine rested.standing.rearrange rewired (fun _ => ⟨rfl, rfl⟩) (fun rule' found' _ => ?_)
      fun _ => nofun
    rw [found] at found'
    cases found'
    exact subscribed
  refine ⟨standing.cascade cascade, fun other => cascade.fresh rfl standing false other nofun ?_⟩
  by_cases same : other = id
  · exact .inr (List.mem_singleton.2 same)
  · have bareStill := rewired.bare rested.standing.bare
    exact .inl (((rested.fresh other).spared (rewired.spared rested.standing.bare)).spared
      (.modify bareStill same _))

theorem Rested.deactivate {e e₁ : Engine σ} (rested : Rested e) {id : ListenerId}
    (rewired : Rewired id e e₁) : Rested (e₁.stop id) := by
  have notActive : ∀ rule : Rule, (if rule.state = .active then
      { rule with state := .inactive } else rule).state ≠ .active := by
    intro rule
    split
    · exact nofun
    · assumption
  refine ⟨rested.standing.rearrange rewired (fun rule => ?_) (fun rule _ active => ?_)
    fun rule => ?_, fun other => ?_⟩
  · split <;> exact ⟨rfl, rfl⟩
  · exact absurd active (notActive rule)
  · split <;> exact (·)
  · by_cases same : other = id
    · subst same
      refine .of_not_active fun rule found => ?_
      obtain ⟨old, _, rfl⟩ := of_rule?_modifyRule found
      exact notActive old
    · have bareStill := rewired.bare rested.standing.bare
      exact ((rested.fresh other).spared (rewired.spared rested.standing.bare)).spared
        (.modify bareStill same _)

theorem Rested.step {checked : List ListenerId} {e e' : Engine σ} (rested : Rested e)
    (step : Step checked e (.ok ()) e') : Rested e' := by
  cases step with
  | idle => exact rested
  | write cascade => exact rested.cascade cascade
  | advance cascade => exact rested.advance cascade
  | check cascade => exact rested.cascade cascade
  | activate found _ rewired subscribed cascade =>
    exact rested.activate found rewired subscribed cascade
  | deactivate _ rewired => exact rested.deactivate rewired

theorem Reached.rested {e : Engine σ} (reached : Reached Reply.Succeeded e) : Rested e := by
  refine (reached.invariant (· = .ok ()) Rested Reply.Succeeded.all_ok Rested.create
    Rested.listen ?_).2
  rintro _ e e' result - rested rfl step
  exact rested.step step

/-- The condition evaluates to a number that is not zero. -/
def HoldsNow (e : Engine σ) (condition : Expr) : Prop :=
  ∃ n e', condition.evaluate read e = some (.ready (.number n), e') ∧ n.raw ≠ 0

theorem holdsNow_iff {e : Engine σ} (bare : e.devices = []) (condition : Expr) :
    HoldsNow e condition ↔ condition.truth e.outcome = .ready true := by
  obtain ⟨o, e₁, ran, -, same⟩ := evaluate_run condition e
  have same := same bare
  rw [Expr.truth, ← same]
  constructor
  · rintro ⟨n, e₂, ran', nonzero⟩
    rw [ran] at ran'
    cases ran'
    simp [Outcome.andThen, Value.isTrue, Value.asNumber, Except.map, Outcome.ofExcept, nonzero]
  · intro holds
    cases o with
    | interrupted _ | failed _ => cases holds
    | ready v =>
      cases v with
      | string _ => cases holds
      | number n =>
        refine ⟨n, e₁, ran, ?_⟩
        simpa [Outcome.andThen, Value.isTrue, Value.asNumber, Except.map, Outcome.ofExcept]
          using holds

/-- After commands that all succeeded no active rule is left with a stale condition: it remembers
its condition as true only if it is, and if it forgot that, its action was put off the last time it
was tried. -/
theorem no_edge_is_lost {e : Engine σ} (reached : Reached Reply.Succeeded e) {id : ListenerId}
    {rule : Rule} (found : e.rule? id = some rule) (active : rule.state = .active) :
    (rule.held = true → HoldsNow e rule.condition) ∧
      (HoldsNow e rule.condition → rule.held = false →
        ∃ reason, (attempts id e.journal).getLast? = some (.interrupted reason)) := by
  have rested := reached.rested
  rw [holdsNow_iff rested.standing.bare]
  obtain ⟨held, forgotten⟩ := rested.fresh id rule found active
  exact ⟨held, fun holds notHeld => (forgotten holds notHeld).2⟩

/-- Two rules in a row, of which the second cannot complete its action yet. -/
def relay : Engine Unit :=
  create {} ()
  |>.withRule ⟨1⟩ { condition := "(sig Signals.A)", action := "(act Signals.Set 'B' 100)" }
  |>.withRule ⟨1⟩
    { condition := "(sig Signals.B)", action := "(act Signals.Set 'C' (sig Signals.D))" }
  |>.after Reply.Succeeded 3 (.activate ⟨1⟩)
  |>.after Reply.Succeeded 3 (.activate ⟨2⟩)
  |>.after Reply.Succeeded 3 (.set "A" (.number (.ofInt 1)))

theorem relay_loses_no_edge :
    ∃ first second, relay.rule? ⟨1⟩ = some first ∧ relay.rule? ⟨2⟩ = some second ∧
      (first.held = true ∧ HoldsNow relay first.condition) ∧
      (HoldsNow relay second.condition ∧ second.held = false ∧
        ∃ reason, (attempts ⟨2⟩ relay.journal).getLast? = some (.interrupted reason)) := by
  have reached : Reached Reply.Succeeded relay := by
    unfold relay
    exact (((((Reached.create {} ()).withRule _ _).withRule _ _).after _ _).after _ _).after _ _
  have bare := reached.rested.standing.bare
  have first : (relay.rule? ⟨1⟩).map (fun rule => (rule.state, rule.held)) =
      some (.active, true) := by decide +kernel
  have second : (relay.rule? ⟨2⟩).map (fun rule =>
      (rule.state, rule.held, rule.condition.truth relay.outcome)) =
      some (.active, false, .ready true) := by decide +kernel
  obtain ⟨rule₁, found₁, same₁⟩ := Option.map_eq_some_iff.1 first
  obtain ⟨rule₂, found₂, same₂⟩ := Option.map_eq_some_iff.1 second
  simp only [Prod.mk.injEq] at same₁ same₂
  have holds := (holdsNow_iff bare rule₂.condition).2 same₂.2.2
  exact ⟨rule₁, rule₂, found₁, found₂,
    ⟨same₁.2, (no_edge_is_lost reached found₁ same₁.1).1 same₁.2⟩,
    holds, same₂.2.1, (no_edge_is_lost reached found₂ same₂.1).2 holds same₂.2.1⟩

end Engine

end SignalRules
