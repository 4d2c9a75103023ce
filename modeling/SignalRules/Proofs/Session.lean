import SignalRules.Book
import SignalRules.Proofs.AmongRules

/-! # Sessions with rules

What a host application without devices or listeners of its own can do with its rules, one command
after the other. Each command comes to a few steps, and a step is a cascade but for a change of the
ticker or of what belongs to a single rule.
-/

namespace SignalRules

/-- Something was installed or uninstalled. -/
def Event.isSetup : Event → Bool
  | .installed _ _ _ => true
  | .uninstalled _ _ => true
  | _ => false

theorem Event.isApart_of_isSetup {event : Event} (setup : event.isSetup) : event.isApart := by
  cases event <;> first | rfl | cases setup

namespace Engine

variable {σ α : Type}

/-! ## Installations -/

/-- Who provides an action depends on the devices only. -/
theorem provider_congr {e e₁ : Engine σ} (same : e₁.devices = e.devices) (name : String) :
    e₁.provider name = e.provider name := by
  unfold provider
  rw [same]

section

variable {e e₁ e' : Engine σ} {owner : Option ListenerId} {action : Ref} {device : Device σ}
  {provider : Provider σ}

theorem install_of_unknown {error : ScriptError} (unknown : e.provider action.name = .error error) :
    install owner action e = some (.error error, e) := by
  simp only [install, Run.get_bind_apply, unknown]
  rfl

theorem install_of_own (known : e.provider action.name = .ok provider)
    (own : ∀ device, provider ≠ .device device) :
    install owner action e = some (.ok (), e.note (.installed owner action (.ok ()))) := by
  simp only [install, Run.get_bind_apply, known]
  cases provider with
  | globals | diagnostics => rfl
  | device device => exact absurd rfl (own device)

theorem install_of_device (known : e.provider action.name = .ok (.device device)) :
    install owner action e =
      some ((device.install action e.foreign).1,
        { e with foreign := (device.install action e.foreign).2 }.note
          (.installed owner action (device.install action e.foreign).1)) := by
  simp only [install, Run.get_bind_apply, known]
  rfl

theorem uninstall_of_unknown {error : ScriptError}
    (unknown : e.provider action.name = .error error) :
    uninstall owner action e = some ((), e) := by
  simp only [uninstall, Run.get_bind_apply, unknown]
  rfl

theorem uninstall_of_own (known : e.provider action.name = .ok provider)
    (own : ∀ device, provider ≠ .device device) (same : e₁.devices = e.devices) :
    uninstall owner action e₁ = some ((), e₁.note (.uninstalled owner action)) := by
  simp only [uninstall, Run.get_bind_apply, provider_congr same, known]
  cases provider with
  | globals | diagnostics => rfl
  | device device => exact absurd rfl (own device)

theorem uninstall_of_device (known : e.provider action.name = .ok (.device device))
    (same : e₁.devices = e.devices) :
    uninstall owner action e₁ =
      some ((), { e₁ with foreign := device.uninstall action e₁.foreign }.note
        (.uninstalled owner action)) := by
  simp only [uninstall, Run.get_bind_apply, provider_congr same, known]
  rfl

theorem install_cases {result : Except ScriptError Unit}
    (run : install owner action e = some (result, e')) :
    (∃ error, e.provider action.name = .error error ∧ result = .error error ∧ e' = e) ∨
      ∃ provider foreign, e.provider action.name = .ok provider ∧
        e' = { e with foreign }.note (.installed owner action result) := by
  cases known : e.provider action.name with
  | error error =>
    cases (install_of_unknown known).symm.trans run
    exact .inl ⟨error, rfl, rfl, rfl⟩
  | ok provider =>
    by_cases foreign : ∃ device, provider = .device device
    · obtain ⟨device, rfl⟩ := foreign
      cases (install_of_device known).symm.trans run
      exact .inr ⟨_, _, rfl, rfl⟩
    · cases (install_of_own known (not_exists.1 foreign)).symm.trans run
      exact .inr ⟨_, e.foreign, rfl, rfl⟩

theorem uninstall_cases {done : Unit} (run : uninstall owner action e = some (done, e')) :
    (∃ error, e.provider action.name = .error error ∧ e' = e) ∨
      ∃ provider foreign, e.provider action.name = .ok provider ∧
        e' = { e with foreign }.note (.uninstalled owner action) := by
  cases known : e.provider action.name with
  | error error =>
    cases (uninstall_of_unknown known).symm.trans run
    exact .inl ⟨error, rfl, rfl⟩
  | ok provider =>
    by_cases foreign : ∃ device, provider = .device device
    · obtain ⟨device, rfl⟩ := foreign
      cases (uninstall_of_device known rfl).symm.trans run
      exact .inr ⟨_, _, rfl, rfl⟩
    · cases (uninstall_of_own known (not_exists.1 foreign) rfl).symm.trans run
      exact .inr ⟨_, e.foreign, rfl, rfl⟩

end

/-! ## Subscriptions of one rule -/

/-- Only what a provider keeps for one rule has changed. -/
def Rewired (id : ListenerId) (e e' : Engine σ) : Prop :=
  ∃ subscriptions foreign events,
    (∀ {signal other}, other ≠ id → other ∈ e.subscriptions.listeners signal →
      other ∈ subscriptions.listeners signal) ∧
    (∀ event ∈ events, event.isSetup) ∧
    e' = { e with subscriptions, foreign, journal := e.journal ++ events }

namespace Rewired

theorem refl (id : ListenerId) (e : Engine σ) : Rewired id e e :=
  ⟨e.subscriptions, e.foreign, [], fun _ member => member, by simp, by simp⟩

theorem trans {id : ListenerId} {a b c : Engine σ} (ab : Rewired id a b) (bc : Rewired id b c) :
    Rewired id a c := by
  obtain ⟨_, _, first, kept, firstSetup, rfl⟩ := ab
  obtain ⟨subscriptions, foreign, rest, keptStill, restSetup, rfl⟩ := bc
  refine ⟨subscriptions, foreign, first ++ rest, fun ne member => keptStill ne (kept ne member),
    ?_, by simp⟩
  intro event member
  rcases List.mem_append.1 member with inFirst | inRest
  · exact firstSetup event inFirst
  · exact restSetup event inRest

theorem foreign (id : ListenerId) (e : Engine σ) (foreign : σ) :
    Rewired id e { e with foreign } :=
  ⟨e.subscriptions, foreign, [], fun _ member => member, by simp, by simp⟩

theorem note {event : Event} (setup : event.isSetup) (id : ListenerId) (e : Engine σ) :
    Rewired id e (e.note event) :=
  ⟨e.subscriptions, e.foreign, [event], fun _ member => member, by simpa using setup, rfl⟩

theorem install {id : ListenerId} {owner : Option ListenerId} {action : Ref} {e e' : Engine σ}
    {result : Except ScriptError Unit} (run : install owner action e = some (result, e')) :
    Rewired id e e' := by
  obtain ⟨_, _, _, rfl⟩ | ⟨_, _, _, rfl⟩ := install_cases run
  · exact .refl id _
  · exact (foreign id e _).trans (.note rfl id _)

theorem uninstall {id : ListenerId} {owner : Option ListenerId} {action : Ref} {e e' : Engine σ}
    {done : Unit} (run : uninstall owner action e = some (done, e')) : Rewired id e e' := by
  obtain ⟨_, _, rfl⟩ | ⟨_, _, _, rfl⟩ := uninstall_cases run
  · exact .refl id _
  · exact (foreign id e _).trans (.note rfl id _)

theorem subscribe {id : ListenerId} {signal : Ref} {e e' : Engine σ}
    {result : Except ScriptError Unit} (run : subscribe signal id e = some (result, e')) :
    Rewired id e e' ∧ (∀ other, id ∈ e.subscriptions.listeners other →
      id ∈ e'.subscriptions.listeners other) ∧
      (result = .ok () → id ∈ e'.subscriptions.listeners signal) := by
  simp only [Engine.subscribe, Run.get_bind_apply] at run
  cases allowed : e.checkSubscribe signal with
  | error error =>
    simp only [allowed] at run
    cases run
    exact ⟨.refl id e, fun _ => (·), nofun⟩
  | ok _ =>
    simp only [allowed] at run
    cases run
    refine ⟨⟨_, e.foreign, [], ?_, by simp, by simp; rfl⟩, ?_, fun _ => ?_⟩
    · exact fun _ member => (Subscriptions.mem_listeners_add _ _ _ _ _).2 (.inl member)
    · exact fun _ member => (Subscriptions.mem_listeners_add _ _ _ _ _).2 (.inl member)
    · exact (Subscriptions.mem_listeners_add _ _ _ _ _).2 (.inr ⟨rfl, rfl⟩)

theorem subscribeAll {id : ListenerId} {signals : List Ref} {e e' : Engine σ}
    {result : Except ScriptError Unit}
    (run : forEach (fun signal => Engine.subscribe signal id) signals e = some (result, e')) :
    Rewired id e e' ∧ (∀ other, id ∈ e.subscriptions.listeners other →
      id ∈ e'.subscriptions.listeners other) ∧
      (result = .ok () → ∀ signal ∈ signals, id ∈ e'.subscriptions.listeners signal) := by
  induction signals generalizing e with
  | nil =>
    cases run
    exact ⟨.refl id _, fun _ => (·), fun _ _ member => by cases member⟩
  | cons signal signals ih =>
    rw [forEach] at run
    obtain ⟨answer, e₁, ran, run⟩ := Run.bind_eq_some_iff.1 run
    obtain ⟨first, kept, subscribed⟩ := subscribe ran
    cases answer with
    | error error =>
      cases run
      exact ⟨first, kept, fun ok => by cases ok⟩
    | ok _ =>
      obtain ⟨rest, keptStill, all⟩ := ih run
      refine ⟨first.trans rest, fun other member => keptStill other (kept other member), ?_⟩
      intro ok other member
      rcases List.mem_cons.1 member with rfl | later
      · exact keptStill _ (subscribed rfl)
      · exact all ok other later

theorem unsubscribeAll {id : ListenerId} {signals : List Ref} {e e' : Engine σ} {done : PUnit}
    (run : (signals.forM fun signal => unsubscribe signal id) e = some (done, e')) :
    Rewired id e e' := by
  induction signals generalizing e with
  | nil =>
    cases run
    exact .refl id _
  | cons signal signals ih =>
    obtain ⟨_, e₁, ran, run⟩ := Run.bind_eq_some_iff.1 run
    cases ran
    refine trans ⟨_, e.foreign, [], ?_, by simp, by simp; rfl⟩ (ih run)
    exact fun ne member => Subscriptions.mem_listeners_remove_of_ne ne member

theorem detach {id : ListenerId} {rule : Rule} {e e' : Engine σ} {done : Unit}
    (run : detach id rule e = some (done, e')) : Rewired id e e' := by
  obtain ⟨_, e₁, ran, run⟩ := Run.bind_eq_some_iff.1 run
  exact (unsubscribeAll ran).trans (uninstall run)

end Rewired

/-! ## Commands -/

end Engine

/-- What a host application can tell an engine to do with its rules. -/
inductive Command where
  | set (name : String) (value : Value)
  | advance
  | activate (rule : ListenerId)
  | deactivate (rule : ListenerId)
  | check (rule : ListenerId)
  | tick (book : Book)

/-- The rules that a command with a single result checks itself. -/
def Command.checked : Command → List ListenerId
  | .activate rule => [rule]
  | .check rule => [rule]
  | _ => []

/-- What it is told in return. -/
inductive Reply where
  | result (result : Except ScriptError Unit)
  /-- The number of checks that failed. -/
  | failures (count : Nat)

def Reply.Succeeded : Reply → Prop
  | .result r => r = .ok ()
  | .failures count => count = 0

instance : DecidablePred Reply.Succeeded
  | .result (.ok _) => .isTrue rfl
  | .result (.error _) => .isFalse nofun
  | .failures count => inferInstanceAs (Decidable (count = 0))

/-- What is told of the results of all parts of a command. -/
def Reply.Tells : Reply → List (Except ScriptError Unit) → Prop
  | .result r, results => results = [r]
  | .failures count, results => count = results.countP fun r => !r.isOk

theorem Reply.Succeeded.all_ok {reply : Reply} {results : List (Except ScriptError Unit)}
    (succeeded : reply.Succeeded) (told : reply.Tells results) :
    ∀ result ∈ results, result = .ok () := by
  cases reply with
  | result r =>
    cases told
    cases succeeded
    simp
  | failures count =>
    cases succeeded
    intro result member
    have isOk := List.countP_eq_zero.1 told.symm result member
    cases result with
    | ok _ => rfl
    | error _ => exact absurd rfl isOk

/-- Carry out a command, its requests nesting at most this deeply. -/
def Command.run {σ : Type} (depth : Nat) : Command → Run σ Reply
  | .set name value => return .result (← Engine.handle depth (.set name value))
  | .advance => return .result (← Engine.handle depth .advance)
  | .activate rule => return .result (← Engine.handle depth (.activate rule))
  | .deactivate rule => return .result (← Engine.handle depth (.deactivate rule))
  | .check rule => return .result (← Engine.handle depth (.check rule))
  | .tick book => return .failures (← book.tick (Engine.handle depth))

namespace Engine

variable {σ α : Type}

/-- What holds across the parts of runs holds across every command. -/
theorem Closed.command {R : Engine σ → Engine σ → Prop} (closed : Closed R) (depth : Nat)
    (command : Command) : Across R (command.run depth) := by
  cases command with
  | tick book => exact closed.bind (closed.tick depth book.rules) fun _ => closed.pure _
  | set | advance | activate | deactivate | check =>
    exact closed.bind (closed.handle depth _) fun _ => closed.pure _

/-- The engines of sessions without devices in which all replies were of this kind. -/
inductive Reached (accepted : Reply → Prop) : Engine σ → Prop where
  | create (config : Config) (foreign : σ) : Reached accepted (create config foreign)
  | compile {e : Engine σ} {host : HostId} {record : RuleRecord} {rule : Rule} :
    Reached accepted e → Rule.ofRecord (e.scope host) record = .ok rule →
      Reached accepted (e.addListener (.rule rule)).2
  /-- A rule may also be built by hand. -/
  | build {e : Engine σ} {host : HostId} {condition : Expr} {action : Call} {rule : Rule} :
    Reached accepted e → Rule.ofParts host condition action = .ok rule →
      Reached accepted (e.addListener (.rule rule)).2
  | command {e e' : Engine σ} {depth : Nat} {command : Command} {reply : Reply} :
    Reached accepted e → command.run depth e = some (reply, e') → accepted reply →
      Reached accepted e'

/-! ## Steps -/

/-- A rule begins to listen. -/
def start (e : Engine σ) (id : ListenerId) : Engine σ :=
  e.modifyRule id fun rule => { rule with state := .active, held := false }

@[simp] theorem dispatcher_start (e : Engine σ) (id : ListenerId) :
    (e.start id).dispatcher = e.dispatcher :=
  dispatcher_modifyRule e id _

def stop (e : Engine σ) (id : ListenerId) : Engine σ :=
  e.modifyRule id fun rule =>
    if rule.state = .active then { rule with state := .inactive } else rule

theorem keeps_from_start (e : Engine σ) (id : ListenerId) : Keeps (e.start id) e := by
  refine .from_modifyRule ?_ e id
  exact fun _ => rfl

/-- How activating a rule may go: it does nothing, or gives up where the action cannot be installed
or a signal cannot be subscribed to, or comes to check the rule, which listens by then. -/
inductive Activation (handler : Handler σ) (id : ListenerId) (e : Engine σ) :
    Except ScriptError Unit → Engine σ → Prop where
  | idle : Activation handler id e (.ok ()) e
  | notInstalled {e' : Engine σ} {rule : Rule} {error : ScriptError} :
    e.rule? id = some rule → rule.state = .inactive →
      install (some id) rule.actionRef e = some (.error error, e') →
        Activation handler id e (.error error) e'
  | notSubscribed {e₁ e₂ e' : Engine σ} {rule : Rule} {error : ScriptError} {done : Unit} :
    e.rule? id = some rule → rule.state = .inactive →
      install (some id) rule.actionRef e = some (.ok (), e₁) →
      forEach (fun signal => subscribe signal id) rule.signals e₁ = some (.error error, e₂) →
      detach id rule e₂ = some (done, e') → Activation handler id e (.error error) e'
  | listening {e₁ e₂ e' : Engine σ} {rule : Rule} {result : Except ScriptError Unit} :
    e.rule? id = some rule → rule.state = .inactive →
      install (some id) rule.actionRef e = some (.ok (), e₁) →
      forEach (fun signal => subscribe signal id) rule.signals e₁ = some (.ok (), e₂) →
      check handler id (e₂.start id) = some (result, e') → Activation handler id e result e'

theorem activation {handler : Handler σ} {id : ListenerId} {e e' : Engine σ}
    {result : Except ScriptError Unit} (run : activate handler id e = some (result, e')) :
    Activation handler id e result e' := by
  simp only [activate, Run.get_bind_apply] at run
  cases found : e.rule? id with
  | none =>
    simp only [found] at run
    cases run
    exact .idle
  | some rule =>
    simp only [found] at run
    by_cases inactive : rule.state = .inactive
    · rw [if_neg (Decidable.not_not.2 inactive)] at run
      obtain ⟨installed, e₁, installs, run⟩ := Run.bind_eq_some_iff.1 run
      cases installed with
      | error error =>
        cases run
        exact .notInstalled found inactive installs
      | ok _ =>
        obtain ⟨subscribed, e₂, subscribes, run⟩ := Run.bind_eq_some_iff.1 run
        cases subscribed with
        | error error =>
          obtain ⟨_, _, detaches, run⟩ := Run.bind_eq_some_iff.1 run
          cases run
          exact .notSubscribed found inactive installs subscribes detaches
        | ok _ => exact .listening found inactive installs subscribes run
    · rw [if_pos inactive] at run
      cases run
      exact .idle

theorem deactivation {id : ListenerId} {e e' : Engine σ} {done : Unit}
    (run : deactivate id e = some (done, e')) :
    (e.rule? id = none ∧ e' = e) ∨ ∃ rule e₁, e.rule? id = some rule ∧
      detach id rule e = some ((), e₁) ∧ e' = e₁.stop id := by
  simp only [deactivate, Run.get_bind_apply] at run
  cases found : e.rule? id with
  | none =>
    simp only [found] at run
    cases run
    exact .inl ⟨rfl, rfl⟩
  | some rule =>
    simp only [found] at run
    obtain ⟨_, e₁, detaches, run⟩ := Run.bind_eq_some_iff.1 run
    cases run
    exact .inr ⟨rule, e₁, rfl, detaches, rfl⟩

/-- What commands consist of: each part checks these rules directly, and has a result. -/
inductive Step : List ListenerId → Engine σ → Except ScriptError Unit → Engine σ → Prop where
  | idle {checked : List ListenerId} {e : Engine σ} {result : Except ScriptError Unit} :
    Step checked e result e
  | write {e e' : Engine σ} {name : String} {value : Value} {result : Except ScriptError Unit}
    (cascade : Cascade (.write name value) e result e') : Step [] e result e'
  | advance {e e' : Engine σ} {result : Except ScriptError Unit}
    (cascade : Cascade (.deliver (e.subscriptions.callbacks Diagnostics.tickerSignal))
      { e with ticker := e.ticker.advance } result e') : Step [] e result e'
  | check {e e' : Engine σ} {id : ListenerId} {result : Except ScriptError Unit}
    (cascade : Cascade (.check id) e result e') : Step [id] e result e'
  | activate {e e₁ e' : Engine σ} {id : ListenerId} {rule : Rule}
    {result : Except ScriptError Unit} (found : e.rule? id = some rule)
    (inactive : rule.state = .inactive) (rewired : Rewired id e e₁)
    (subscribed : ∀ signal ∈ rule.signals, id ∈ e₁.subscriptions.listeners signal)
    (cascade : Cascade (.check id) (e₁.start id) result e') : Step [id] e result e'
  /-- An activation failed, and was taken back. -/
  | giveUp {e e' : Engine σ} {id : ListenerId} {rule : Rule} {error : ScriptError}
    (found : e.rule? id = some rule) (inactive : rule.state = .inactive)
    (rewired : Rewired id e e') : Step [id] e (.error error) e'
  | deactivate {e e₁ : Engine σ} {id : ListenerId} {rule : Rule}
    (found : e.rule? id = some rule) (rewired : Rewired id e e₁) :
    Step [] e (.ok ()) (e₁.stop id)

/-- Steps one after the other. -/
inductive Steps : Engine σ → List (Except ScriptError Unit) → Engine σ → Prop where
  | nil {e : Engine σ} : Steps e [] e
  | cons {e e₁ e' : Engine σ} {checked : List ListenerId} {result : Except ScriptError Unit}
    {results : List (Except ScriptError Unit)} :
    Step checked e result e₁ → Steps e₁ results e' → Steps e (result :: results) e'

theorem Steps.single {e e' : Engine σ} {checked : List ListenerId}
    {result : Except ScriptError Unit} (step : Step checked e result e') : Steps e [result] e' :=
  .cons step .nil

theorem Rewired.among {id : ListenerId} {e e' : Engine σ} (rewired : Rewired id e e')
    (among : AmongRules e) : AmongRules e' := by
  obtain ⟨_, _, _, _, _, rfl⟩ := rewired
  exact ⟨among.listeners, among.devices⟩

theorem Rewired.bare {id : ListenerId} {e e' : Engine σ} (rewired : Rewired id e e')
    (bare : e.devices = []) : e'.devices = [] := by
  obtain ⟨_, _, _, _, _, rfl⟩ := rewired
  exact bare

theorem AmongRules.modifyRule {e : Engine σ} (among : AmongRules e) (id : ListenerId)
    (f : Rule → Rule) : AmongRules (e.modifyRule id f) where
  listeners := by
    intro other listener known
    by_cases ne : other = id
    · subst ne
      cases found : e.rule? other with
      | none =>
        rw [Engine.modifyRule, found] at known
        exact among.listeners known
      | some rule =>
        rw [listener?_eq_of_rule? (rule?_modifyRule_self found f)] at known
        injection known with same
        exact ⟨_, same.symm⟩
    · rw [listener?_modifyRule_of_ne e ne] at known
      exact among.listeners known
  devices := by
    rw [modifyRule_eq]
    exact among.devices

theorem Step.among {checked : List ListenerId} {e e' : Engine σ}
    {result : Except ScriptError Unit} (step : Step checked e result e') (among : AmongRules e) :
    AmongRules e' := by
  cases step with
  | idle => exact among
  | write cascade => exact among.of_framed cascade.framed
  | advance cascade =>
    have advanced : AmongRules { e with ticker := e.ticker.advance } :=
      ⟨among.listeners, among.devices⟩
    exact advanced.of_framed cascade.framed
  | check cascade => exact among.of_framed cascade.framed
  | activate _ _ rewired _ cascade =>
    exact ((rewired.among among).modifyRule _ _).of_framed cascade.framed
  | giveUp _ _ rewired => exact rewired.among among
  | deactivate _ rewired => exact (rewired.among among).modifyRule _ _

theorem Rewired.dispatcher {id : ListenerId} {e e' : Engine σ} (rewired : Rewired id e e') :
    e'.dispatcher = e.dispatcher := by
  obtain ⟨_, _, _, _, _, rfl⟩ := rewired
  rfl

theorem Rewired.rule?_eq {id : ListenerId} {e e' : Engine σ} (rewired : Rewired id e e') :
    e'.rule? = e.rule? := by
  obtain ⟨_, _, _, _, _, rfl⟩ := rewired
  rfl

theorem Rewired.keeps_from {id : ListenerId} {e e' : Engine σ} (rewired : Rewired id e e') :
    Keeps e' e :=
  fun _ rule found => ⟨rule, rewired.rule?_eq ▸ found, rfl⟩

/-- What a listener does, if it is a rule. -/
def action? (e : Engine σ) (id : ListenerId) : Option Call :=
  (e.rule? id).map Rule.action

theorem action?_of_rule? {e : Engine σ} {id : ListenerId} {rule : Rule}
    (found : e.rule? id = some rule) : e.action? id = some rule.action := by
  rw [action?, found]
  rfl

theorem action?_modifyRule (e : Engine σ) (id changed : ListenerId) {f : Rule → Rule}
    (same : ∀ rule, (f rule).action = rule.action) :
    (e.modifyRule changed f).action? id = e.action? id := by
  unfold action?
  by_cases ne : id = changed
  · subst ne
    cases found : e.rule? id with
    | none =>
      rw [modifyRule, found]
      simp only [found]
    | some rule =>
      rw [rule?_modifyRule_self found]
      exact congrArg some (same rule)
  · rw [rule?_modifyRule_of_ne e ne]

theorem Framed.action? {e e' : Engine σ} (framed : Framed e e') (id : ListenerId) :
    e'.action? id = e.action? id := by
  unfold Engine.action?
  cases found : e.rule? id with
  | none => rw [framed.rule?_none found]
  | some rule =>
    obtain ⟨rule', found', follows⟩ := framed.rules found
    rw [found']
    exact congrArg some follows.action

theorem Rewired.action? {id : ListenerId} {e e' : Engine σ} (rewired : Rewired id e e')
    (other : ListenerId) : e'.action? other = e.action? other := by
  unfold Engine.action?
  rw [rewired.rule?_eq]

theorem action?_start (e : Engine σ) (id started : ListenerId) :
    (e.start started).action? id = e.action? id :=
  action?_modifyRule e id started fun _ => rfl

/-- Rules do not go away, and their actions stay. -/
theorem Step.action? {checked : List ListenerId} {e e' : Engine σ}
    {result : Except ScriptError Unit} (step : Step checked e result e') (id : ListenerId) :
    e'.action? id = e.action? id := by
  cases step with
  | idle => rfl
  | write cascade | advance cascade | check cascade => exact cascade.framed.action? id
  | activate _ _ rewired _ cascade =>
    rw [cascade.framed.action?, action?_start, rewired.action?]
  | giveUp _ _ rewired => exact rewired.action? id
  | deactivate _ rewired =>
    rw [stop, action?_modifyRule _ _ _ fun rule => ?_, rewired.action?]
    split <;> rfl

theorem activate_step {depth : Nat} {id : ListenerId} {e e' : Engine σ}
    {result : Except ScriptError Unit} (among : AmongRules e)
    (run : activate (handle depth) id e = some (result, e')) : Step [id] e result e' := by
  cases activation run with
  | idle => exact .idle
  | notInstalled found inactive installs => exact .giveUp found inactive (.install installs)
  | notSubscribed found inactive installs subscribes detaches =>
    have second := (Rewired.install installs).trans (Rewired.subscribeAll subscribes).1
    exact .giveUp found inactive (second.trans (.detach detaches))
  | listening found inactive installs subscribes checked =>
    obtain ⟨second, -, all⟩ := Rewired.subscribeAll subscribes
    have rewired := (Rewired.install installs).trans second
    have amongStill := (rewired.among among).modifyRule id fun rule =>
      { rule with state := .active, held := false }
    exact .activate found inactive rewired (all rfl)
      ((handle_follows depth).check amongStill checked)

theorem deactivate_step {id : ListenerId} {e e' : Engine σ} {done : Unit}
    (run : deactivate id e = some (done, e')) : Step [] e (.ok ()) e' := by
  obtain ⟨-, rfl⟩ | ⟨rule, e₁, found, detaches, rfl⟩ := deactivation run
  · exact .idle
  · exact .deactivate found (.detach detaches)

theorem tick_steps {depth : Nat} {ids : List ListenerId} {e e' : Engine σ} {count : Nat}
    (among : AmongRules e) (run : Book.tick.go (handle depth) ids e = some (count, e')) :
    ∃ results, Steps e results e' ∧ count = results.countP fun r => !r.isOk := by
  induction ids generalizing e count with
  | nil =>
    cases run
    exact ⟨[], .nil, rfl⟩
  | cons id ids ih =>
    rw [Book.tick.go] at run
    obtain ⟨result, e₁, ran, run⟩ := Run.bind_eq_some_iff.1 run
    have first : Step [id] e result e₁ := .check ((handle_follows depth).check among ran)
    cases result with
    | ok _ =>
      obtain ⟨results, rest, counted⟩ := ih (first.among among) run
      exact ⟨_, .cons first rest, by rw [counted]; rfl⟩
    | error error =>
      obtain ⟨more, e₂, ran, run⟩ := Run.bind_eq_some_iff.1 run
      cases run
      obtain ⟨results, rest, counted⟩ := ih (first.among among) ran
      exact ⟨_, .cons first rest, by rw [counted, List.countP_cons_of_pos rfl]⟩

theorem set_step {depth : Nat} {name : String} {value : Value} {e e' : Engine σ}
    {result : Except ScriptError Unit} (among : AmongRules e)
    (run : serve (handle depth) (.set name value) e = some (result, e')) : Step [] e result e' := by
  rw [serve] at run
  by_cases named : Globals.isName name
  · rw [if_pos named] at run
    cases value with
    | number n => exact .write ((handle_follows depth).setGlobal among run)
    | string s =>
      cases run
      exact .idle
  · rw [if_neg named] at run
    cases run
    exact .idle

theorem advance_step {depth : Nat} {e e' : Engine σ} {result : Except ScriptError Unit}
    (among : AmongRules e) (run : advanceTicker (handle depth) e = some (result, e')) :
    Step [] e result e' := by
  rw [advanceTicker, Run.modify_bind_apply] at run
  have advanced : AmongRules { e with ticker := e.ticker.advance } :=
    ⟨among.listeners, among.devices⟩
  exact .advance ((handle_follows depth).announceEverywhere advanced run)

theorem served_of_handle {depth : Nat} {request : Request} {e e' : Engine σ}
    {result : Except ScriptError Unit} (run : handle depth request e = some (result, e')) :
    ∃ depth, serve (handle depth) request e = some (result, e') := by
  cases depth with
  | zero => cases run
  | succ depth => exact ⟨depth, run⟩

/-- Every command with a single result is a step. -/
theorem command_step {depth : Nat} {command : Command} {e e' : Engine σ}
    {result : Except ScriptError Unit} (among : AmongRules e)
    (run : command.run depth e = some (.result result, e')) : Step command.checked e result e' := by
  cases command with
  | tick book =>
    obtain ⟨_, _, _, finish⟩ := Run.bind_eq_some_iff.1 run
    cases finish
  | set name value =>
    obtain ⟨_, _, ran, finish⟩ := Run.bind_eq_some_iff.1 run
    cases finish
    obtain ⟨_, served⟩ := served_of_handle ran
    exact set_step among served
  | advance =>
    obtain ⟨_, _, ran, finish⟩ := Run.bind_eq_some_iff.1 run
    cases finish
    obtain ⟨_, served⟩ := served_of_handle ran
    exact advance_step among served
  | activate id =>
    obtain ⟨_, _, ran, finish⟩ := Run.bind_eq_some_iff.1 run
    cases finish
    obtain ⟨_, served⟩ := served_of_handle ran
    exact activate_step among served
  | deactivate id =>
    obtain ⟨_, _, ran, finish⟩ := Run.bind_eq_some_iff.1 run
    cases finish
    obtain ⟨_, served⟩ := served_of_handle ran
    obtain ⟨_, _, ran, finish⟩ := Run.bind_eq_some_iff.1 served
    cases finish
    exact deactivate_step ran
  | check id =>
    obtain ⟨_, _, ran, finish⟩ := Run.bind_eq_some_iff.1 run
    cases finish
    obtain ⟨depth, served⟩ := served_of_handle ran
    exact .check ((handle_follows depth).check among served)

/-- Every command consists of steps. -/
theorem command_steps {depth : Nat} {command : Command} {e e' : Engine σ} {reply : Reply}
    (among : AmongRules e) (run : command.run depth e = some (reply, e')) :
    ∃ results, Steps e results e' ∧ reply.Tells results := by
  cases reply with
  | result result => exact ⟨[result], .single (command_step among run), rfl⟩
  | failures count =>
    cases command with
    | tick book =>
      obtain ⟨_, _, ran, finish⟩ := Run.bind_eq_some_iff.1 run
      cases finish
      exact tick_steps among ran
    | set | advance | activate | deactivate | check =>
      obtain ⟨_, _, _, finish⟩ := Run.bind_eq_some_iff.1 run
      cases finish

end Engine

/-- As rules are when they are made. -/
structure Rule.IsFresh (rule : Rule) : Prop where
  inactive : rule.state = .inactive
  notHeld : rule.held = false

theorem Rule.isFresh_of_ofParts {host : HostId} {condition : Expr} {action : Call} {rule : Rule}
    (made : Rule.ofParts host condition action = .ok rule) : rule.IsFresh := by
  unfold Rule.ofParts at made
  split at made
  · cases made
    exact ⟨rfl, rfl⟩
  · cases made

/-- A record is compiled part by part. -/
theorem Rule.ofRecord_cases {scope : Scope} {record : RuleRecord} {rule : Rule}
    (made : Rule.ofRecord scope record = .ok rule) :
    ∃ built, scope.parseCondition record.condition = .ok built.condition ∧
      scope.parseCall record.action = .ok built.action ∧
      Rule.ofParts scope.host built.condition built.action = .ok built ∧
      rule = { built with template := record.template, precondition := record.precondition } := by
  have rest : (do
      let condition ← scope.parseCondition record.condition
      let action ← scope.parseCall record.action
      let rule ← Rule.ofParts scope.host condition action
      return { rule with template := record.template, precondition := record.precondition }) =
        Except.ok rule →
      ∃ built, scope.parseCondition record.condition = .ok built.condition ∧
        scope.parseCall record.action = .ok built.action ∧
        Rule.ofParts scope.host built.condition built.action = .ok built ∧
        rule = { built with template := record.template, precondition := record.precondition } := by
    intro made
    obtain ⟨condition, parsed, made⟩ := Except.bind_eq_ok made
    obtain ⟨call, called, made⟩ := Except.bind_eq_ok made
    obtain ⟨built, parts, made⟩ := Except.bind_eq_ok made
    cases made
    have same := parts
    unfold Rule.ofParts at same
    split at same
    · cases same
      exact ⟨_, parsed, called, parts, rfl⟩
    · cases same
  unfold Rule.ofRecord at made
  split at made
  · obtain ⟨_, _, made⟩ := Except.bind_eq_ok made
    exact rest made
  · exact rest made

theorem Rule.isFresh_of_ofRecord {scope : Scope} {record : RuleRecord} {rule : Rule}
    (made : Rule.ofRecord scope record = .ok rule) : rule.IsFresh := by
  obtain ⟨_, _, _, parts, rfl⟩ := Rule.ofRecord_cases made
  exact ⟨(isFresh_of_ofParts parts).inactive, (isFresh_of_ofParts parts).notHeld⟩

namespace Engine

variable {σ : Type}

theorem AmongRules.create (config : Config) (foreign : σ) :
    AmongRules (Engine.create config foreign) where
  listeners known := by
    rw [listener?_create] at known
    cases known
  devices _ member := by cases member

theorem AmongRules.addListener {e : Engine σ} (among : AmongRules e) (rule : Rule) :
    AmongRules (e.addListener (.rule rule)).2 where
  listeners := by
    intro id listener known
    rw [listener?_addListener] at known
    split at known
    · cases known
      exact ⟨rule, rfl⟩
    · exact among.listeners known
  devices := among.devices

/-- What holds of new engines, and is kept when a rule is added and by every step with a result of
the right kind, holds throughout a session. -/
theorem Reached.invariant {accepted : Reply → Prop} (good : Except ScriptError Unit → Prop)
    (I : Engine σ → Prop)
    (tells : ∀ {reply results}, accepted reply → reply.Tells results →
      ∀ result ∈ results, good result)
    (created : ∀ config foreign, I (Engine.create config foreign))
    (listened : ∀ {e : Engine σ} {rule : Rule}, I e → rule.IsFresh →
      I (e.addListener (.rule rule)).2)
    (stepped : ∀ {checked} {e e' : Engine σ} {result : Except ScriptError Unit}, AmongRules e →
      I e → good result → Step checked e result e' → I e')
    {e : Engine σ} (reached : Reached accepted e) : AmongRules e ∧ I e := by
  have run : ∀ {e e' : Engine σ} {results : List (Except ScriptError Unit)},
      Steps e results e' → AmongRules e → I e → (∀ result ∈ results, good result) →
        AmongRules e' ∧ I e' := by
    intro e e' results steps
    induction steps with
    | nil => exact fun among holds _ => ⟨among, holds⟩
    | cons first _ ih =>
      intro among holds all
      have kept := stepped among holds (all _ List.mem_cons_self) first
      exact ih (first.among among) kept fun result member => all result (.tail _ member)
  induction reached with
  | create config foreign => exact ⟨.create config foreign, created config foreign⟩
  | compile _ made ih => exact ⟨ih.1.addListener _, listened ih.2 (Rule.isFresh_of_ofRecord made)⟩
  | build _ made ih => exact ⟨ih.1.addListener _, listened ih.2 (Rule.isFresh_of_ofParts made)⟩
  | command _ ran isAccepted ih =>
    obtain ⟨results, steps, told⟩ := command_steps ih.1 ran
    exact run steps ih.1 ih.2 (tells isAccepted told)

theorem Reached.among {accepted : Reply → Prop} {e : Engine σ} (reached : Reached accepted e) :
    AmongRules e :=
  (reached.invariant (fun _ => True) (fun _ => True) (fun _ _ _ _ => trivial) (fun _ _ => trivial)
    (fun _ _ => trivial) fun _ _ _ _ => trivial).1

/-! ## Sessions as terms -/

/-- The engine with one more rule, if the record compiles. -/
def withRule (e : Engine σ) (host : HostId) (record : RuleRecord) : Engine σ :=
  match Rule.ofRecord (e.scope host) record with
  | .ok rule => (e.addListener (.rule rule)).2
  | .error _ => e

/-- The engine after a command, if there is a reply of the right kind. -/
def after (accepted : Reply → Prop) [DecidablePred accepted] (e : Engine σ) (depth : Nat)
    (command : Command) : Engine σ :=
  match command.run depth e with
  | some (reply, e') => if accepted reply then e' else e
  | none => e

theorem Reached.withRule {accepted : Reply → Prop} {e : Engine σ} (reached : Reached accepted e)
    (host : HostId) (record : RuleRecord) : Reached accepted (e.withRule host record) := by
  unfold Engine.withRule
  split
  · exact .compile reached ‹_›
  · exact reached

theorem Reached.after {accepted : Reply → Prop} [DecidablePred accepted] {e : Engine σ}
    (reached : Reached accepted e) (depth : Nat) (command : Command) :
    Reached accepted (e.after accepted depth command) := by
  unfold Engine.after
  split
  · split
    · exact .command reached ‹_› ‹_›
    · exact reached
  · exact reached

theorem Steps.action? {e e' : Engine σ} {results : List (Except ScriptError Unit)}
    (steps : Steps e results e') (id : ListenerId) : e'.action? id = e.action? id := by
  induction steps with
  | nil => rfl
  | cons first _ ih => exact ih.trans (first.action? id)

theorem action?_after {e : Engine σ} (among : AmongRules e) (accepted : Reply → Prop)
    [DecidablePred accepted] (depth : Nat) (command : Command) (id : ListenerId) :
    (e.after accepted depth command).action? id = e.action? id := by
  unfold after
  split
  · rename_i ran
    split
    · obtain ⟨_, steps, _⟩ := command_steps among ran
      exact steps.action? id
    · rfl
  · rfl

/-- The engine after some commands. -/
def afterAll (accepted : Reply → Prop) [DecidablePred accepted] (e : Engine σ) (depth : Nat)
    (commands : List Command) : Engine σ :=
  commands.foldl (fun e command => e.after accepted depth command) e

theorem Reached.afterAll {accepted : Reply → Prop} [DecidablePred accepted] {e : Engine σ}
    (reached : Reached accepted e) (depth : Nat) (commands : List Command) :
    Reached accepted (e.afterAll accepted depth commands) := by
  induction commands generalizing e with
  | nil => exact reached
  | cons command commands ih => exact ih (reached.after depth command)

theorem action?_afterAll {accepted : Reply → Prop} [DecidablePred accepted] {e : Engine σ}
    (reached : Reached accepted e) (depth : Nat) (commands : List Command) (id : ListenerId) :
    (e.afterAll accepted depth commands).action? id = e.action? id := by
  induction commands generalizing e with
  | nil => rfl
  | cons command commands ih =>
    exact (ih (reached.after depth command)).trans (action?_after reached.among accepted depth _ id)

theorem Rule.action_of_ofRecord {scope : Scope} {record : RuleRecord} {rule : Rule}
    (made : Rule.ofRecord scope record = .ok rule) :
    scope.parseCall record.action = .ok rule.action := by
  obtain ⟨_, _, parsed, _, rfl⟩ := Rule.ofRecord_cases made
  exact parsed

/-- The action of a new rule is the one in its record. -/
theorem parsed_of_withRule {e : Engine σ} {host : HostId} {record : RuleRecord} {id : ListenerId}
    {call : Call} (unknown : e.action? id = none)
    (added : (e.withRule host record).action? id = some call) :
    (e.scope host).parseCall record.action = .ok call := by
  unfold withRule at added
  split at added
  · rename_i rule made
    obtain ⟨rule', found, rfl⟩ := Option.map_eq_some_iff.1 added
    rw [rule?_addListener] at found
    split at found
    · cases found
      exact Rule.action_of_ofRecord made
    · rw [action?, found] at unknown
      cases unknown
  · rw [unknown] at added
    cases added

end Engine

end SignalRules
