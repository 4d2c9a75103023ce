import Mathlib.Logic.Relation
import SignalRules.Proofs.Invariants
import SignalRules.Proofs.Shelves

/-! # Changes

Whatever foreign listeners and devices do, a run is one change after another, and there are few
kinds of them: what providers, checks and callbacks do, which leaves all subscriptions and whatever
is installed for rules alone; single subscriptions; activations, up to the point where the rule
listens; and deactivations. A property that is kept by each change is kept by runs, and by whatever
is done with books if it is kept when a rule is taken in.
-/

namespace SignalRules

/-- The rule for which an event is about an installation. -/
def Event.owner? : Event → Option ListenerId
  | .installed owner _ _ => owner
  | .uninstalled owner _ => owner
  | _ => none

theorem Event.owner?_of_isAside {event : Event} (aside : event.isAside) : event.owner? = none := by
  cases event <;> first | rfl | cases aside

/-- What a rule may become that is neither activated nor deactivated. -/
structure Rule.RunsOn (rule rule' : Rule) : Prop where
  parts : rule'.parts = rule.parts
  was_active : rule'.state = .active → rule.state = .active
  was_inactive : rule'.state = .inactive → rule.state = .inactive

theorem Rule.RunsOn.refl (rule : Rule) : rule.RunsOn rule :=
  ⟨rfl, id, id⟩

namespace Engine

variable {σ α β : Type}

/-! ## Minor changes -/

/-- A change of neither subscriptions nor installations for rules. -/
structure Minor (e e' : Engine σ) : Prop where
  config : e'.config = e.config
  devices : e'.devices = e.devices
  subscriptions : e'.subscriptions = e.subscriptions
  journal : ∃ events, e'.journal = e.journal ++ events ∧ ∀ event ∈ events, event.owner? = none
  rules : ∀ id, Option.Rel Rule.RunsOn (e.rule? id) (e'.rule? id)

namespace Minor

theorem rules_of_listeners {e e' : Engine σ} (listeners : e'.listeners = e.listeners)
    (id : ListenerId) : Option.Rel Rule.RunsOn (e.rule? id) (e'.rule? id) := by
  rw [rule?_congr listeners]
  cases e.rule? id with
  | none => exact .none
  | some rule => exact .some (.refl rule)

theorem note {event : Event} (unowned : event.owner? = none) (e : Engine σ) :
    Minor e (e.note event) :=
  ⟨rfl, rfl, rfl, ⟨[event], rfl, by simpa using unowned⟩, rules_of_listeners rfl⟩

theorem of_aside {e e' : Engine σ} (aside : Aside e e') : Minor e e' := by
  obtain ⟨_, events, asides, rfl⟩ := aside
  have unowned := fun event member => Event.owner?_of_isAside (asides event member)
  exact ⟨rfl, rfl, rfl, ⟨events, rfl, unowned⟩, rules_of_listeners rfl⟩

/-- The dispatcher, the global signals and the ticker may change. -/
theorem of_signals (e : Engine σ) (dispatcher : Dispatcher) (globals : Globals) (ticker : Ticker) :
    Minor e { e with dispatcher, globals, ticker } :=
  ⟨rfl, rfl, rfl, ⟨[], by simp, by simp⟩, rules_of_listeners rfl⟩

theorem modifyRule {f : Rule → Rule} (runsOn : ∀ rule : Rule, rule.RunsOn (f rule)) (e : Engine σ)
    (id : ListenerId) : Minor e (e.modifyRule id f) where
  config := by rw [modifyRule_eq]
  devices := by rw [modifyRule_eq]
  subscriptions := by rw [modifyRule_eq]
  journal := ⟨[], by simp, by simp⟩
  rules other := by
    rw [rule?_modifyRule]
    cases e.rule? other with
    | none => split <;> exact .none
    | some rule =>
      split
      · exact .some (runsOn rule)
      · exact .some (.refl rule)

theorem hold (e : Engine σ) (id : ListenerId) (held : Bool) : Minor e (e.hold id held) := by
  refine modifyRule ?_ e id
  exact fun _ => ⟨rfl, (·), (·)⟩

theorem complete (e : Engine σ) (id : ListenerId) : Minor e (e.complete id) := by
  refine modifyRule ?_ e id
  exact fun _ => ⟨rfl, nofun, nofun⟩

theorem breakDown (e : Engine σ) (id : ListenerId) (error : ScriptError) :
    Minor e (e.breakDown id error) := by
  refine modifyRule ?_ e id
  exact fun _ => ⟨rfl, nofun, nofun⟩

end Minor

/-! ## Changes -/

/-- An activation that gives up and takes everything back, or by which a rule comes to listen. -/
inductive Begins (id : ListenerId) (e : Engine σ) : Engine σ → Prop where
  | notInstalled {e' : Engine σ} {rule : Rule} {error : ScriptError} :
    e.rule? id = some rule → rule.state = .inactive →
      install (some id) rule.actionRef e = some (.error error, e') → Begins id e e'
  | notSubscribed {e₁ e₂ e' : Engine σ} {rule : Rule} {error : ScriptError} {done : Unit} :
    e.rule? id = some rule → rule.state = .inactive →
      install (some id) rule.actionRef e = some (.ok (), e₁) →
      forEach (fun signal => subscribe signal id) rule.signals e₁ = some (.error error, e₂) →
      detach id rule e₂ = some (done, e') → Begins id e e'
  | listening {e₁ e₂ : Engine σ} {rule : Rule} :
    e.rule? id = some rule → rule.state = .inactive →
      install (some id) rule.actionRef e = some (.ok (), e₁) →
      forEach (fun signal => subscribe signal id) rule.signals e₁ = some (.ok (), e₂) →
      Begins id e (e₂.start id)

/-- One of the changes of which runs are made. -/
inductive Change (e : Engine σ) : Engine σ → Prop where
  | minor {e' : Engine σ} : Minor e e' → Change e e'
  | subscribe (signal : Ref) (id : ListenerId) :
    Change e { e with subscriptions := e.subscriptions.add signal id }
  | unsubscribe (signal : Ref) (id : ListenerId) :
    Change e { e with subscriptions := e.subscriptions.remove signal id }
  | activate {id : ListenerId} {e' : Engine σ} : Begins id e e' → Change e e'
  | deactivate {id : ListenerId} {e' : Engine σ} {done : Unit} :
    deactivate id e = some (done, e') → Change e e'

theorem Begins.rewired {id : ListenerId} {e e' : Engine σ} (begins : Begins id e e') :
    ∃ e₁, Rewired id e e₁ ∧ (e' = e₁ ∨ e' = e₁.start id) := by
  cases begins with
  | notInstalled _ _ installs => exact ⟨_, .install installs, .inl rfl⟩
  | notSubscribed _ _ installs subscribes detaches =>
    have rewired := (Rewired.install installs).trans (Rewired.subscribeAll subscribes).1
    exact ⟨_, rewired.trans (.detach detaches), .inl rfl⟩
  | listening _ _ installs subscribes =>
    exact ⟨_, (Rewired.install installs).trans (Rewired.subscribeAll subscribes).1, .inr rfl⟩

theorem Rewired.settings {id : ListenerId} {e e' : Engine σ} (rewired : Rewired id e e') :
    e'.config = e.config ∧ e'.devices = e.devices := by
  obtain ⟨_, _, _, _, _, rfl⟩ := rewired
  exact ⟨rfl, rfl⟩

theorem settings_modifyRule (e : Engine σ) (id : ListenerId) (f : Rule → Rule) :
    (e.modifyRule id f).config = e.config ∧ (e.modifyRule id f).devices = e.devices := by
  rw [modifyRule_eq]
  exact ⟨rfl, rfl⟩

/-- No change touches the configuration or the devices. -/
theorem Change.settings {e e' : Engine σ} (change : Change e e') :
    e'.config = e.config ∧ e'.devices = e.devices := by
  have modified {e e₁ : Engine σ} {id : ListenerId} (rewired : Rewired id e e₁) (f : Rule → Rule) :
      (e₁.modifyRule id f).config = e.config ∧ (e₁.modifyRule id f).devices = e.devices := by
    obtain ⟨config, devices⟩ := settings_modifyRule e₁ id f
    exact ⟨config.trans rewired.settings.1, devices.trans rewired.settings.2⟩
  cases change with
  | minor minor => exact ⟨minor.config, minor.devices⟩
  | subscribe _ _ | unsubscribe _ _ => exact ⟨rfl, rfl⟩
  | activate begins =>
    obtain ⟨e₁, rewired, rfl | rfl⟩ := begins.rewired
    · exact rewired.settings
    · exact modified rewired _
  | deactivate run =>
    obtain ⟨_, rfl⟩ | ⟨rule, e₁, _, detaches, rfl⟩ := deactivation run
    · exact ⟨rfl, rfl⟩
    · exact modified (.detach detaches) _

/-- A property that each change keeps. -/
structure Persistent (I : Engine σ → Prop) : Prop where
  change : ∀ {e e' : Engine σ}, I e → Change e e' → I e'

/-- One change after another. -/
def Changes : Engine σ → Engine σ → Prop :=
  Relation.ReflTransGen Change

theorem persistent_changes (e : Engine σ) : Persistent (Changes e) :=
  ⟨fun changes change => changes.tail change⟩

theorem Changes.settings {e e' : Engine σ} (changes : Changes e e') :
    e'.config = e.config ∧ e'.devices = e.devices := by
  induction changes with
  | refl => exact ⟨rfl, rfl⟩
  | tail _ change ih => exact ⟨change.settings.1.trans ih.1, change.settings.2.trans ih.2⟩

namespace Persistent

variable {I : Engine σ → Prop} (persistent : Persistent I)

include persistent

theorem minor {e e' : Engine σ} (holds : I e) (minor : Minor e e') : I e' :=
  persistent.change holds (.minor minor)

theorem aside {e e' : Engine σ} (holds : I e) (aside : Aside e e') : I e' :=
  persistent.minor holds (.of_aside aside)

theorem record {event : Event} (unowned : event.owner? = none) :
    Maintains I (record event : Run σ Unit) :=
  .modify fun e holds => persistent.minor holds (.note unowned e)

theorem read (signal : Ref) : Maintains I (read (σ := σ) signal) := by
  intro e outcome e' holds run
  obtain ⟨_, ran, aside⟩ := read_run signal e
  cases ran.symm.trans run
  exact persistent.aside holds aside

/-! ## What a handler is used for -/

variable {handler : Handler σ} (keeps : ∀ request, Maintains I (handler request))

include keeps

theorem runProgram (program : Program σ α) : Maintains I (runProgram handler program) := by
  induction program with
  | finish a => exact .pure a
  | request r next ih => exact .bind (keeps r) ih
  | inspect next ih => exact .get_bind fun e => ih e.foreign e.dispatcher.pending
  | update f next ih =>
    exact .bind (.modify fun e holds => persistent.aside holds (.foreign e _)) fun _ => ih
  | remark label result next ih => exact .bind (persistent.record rfl) fun _ => ih

theorem setGlobal (name : String) (value : Value) : Maintains I (setGlobal handler name value) := by
  intro e result e' holds run
  have put : I { e with globals := e.globals.put name value } :=
    persistent.minor holds (.of_signals e _ _ _)
  exact Invariant.setGlobal keeps put run

theorem advanceTicker : Maintains I (advanceTicker handler) :=
  .bind (.modify fun e holds => persistent.minor holds (.of_signals e _ _ _)) fun _ =>
    Invariant.announceEverywhere keeps _

theorem act (action : Ref) (values : List Value) : Maintains I (act handler action values) := by
  refine .get_bind fun e => ?_
  split
  · exact .pure _
  · split
    · split
      · split
        · exact .bind (persistent.setGlobal keeps _ _) fun _ => .pure _
        · exact .pure _
      · exact .pure _
    · exact .pure _
  · split
    · split
      · split
        · exact .bind (persistent.record rfl) fun _ => .pure _
        · exact .pure _
      · exact .pure _
    · exact .pure _
  · exact persistent.runProgram keeps _

theorem perform (action : Ref) (values : List Value) :
    Maintains I (perform handler action values) :=
  .bind (persistent.record rfl) fun _ =>
    .bind (persistent.act keeps action values) fun _ =>
      .bind (persistent.record rfl) fun _ => .pure _

theorem performCall (call : Call) : Maintains I (performCall handler call) := by
  intro e completion e' holds run
  obtain ⟨outcome, e₁, evaluated, aside, _⟩ := arguments_run call e
  obtain ⟨_, _, ran, run⟩ := Run.bind_eq_some_iff.1 run
  cases evaluated.symm.trans ran
  have holds₁ := persistent.aside holds aside
  cases outcome with
  | interrupted _ | failed _ =>
    cases run
    exact holds₁
  | ready values =>
    obtain ⟨_, _, performed, finish⟩ := Run.bind_eq_some_iff.1 run
    cases finish
    exact persistent.perform keeps _ _ _ _ _ holds₁ performed

omit keeps in
theorem conclude {e e' : Engine σ} {id : ListenerId} {before : Nat}
    {outcome : Outcome Expr.Completion} {result : Except ScriptError Unit} (holds : I e)
    (concluded : e.conclude id before outcome = (result, e')) : I e' := by
  unfold Engine.conclude at concluded
  split at concluded
  · cases concluded
    exact holds
  · cases concluded
    exact persistent.minor holds (.complete e id)
  · cases concluded
    exact persistent.minor holds (.hold e id false)
  · split at concluded
    · cases concluded
      exact holds
    · cases concluded
      exact persistent.minor holds (.breakDown e id _)

theorem check (id : ListenerId) : Maintains I (check handler id) := by
  intro e result e' holds run
  obtain ⟨_, _, rfl⟩ | ⟨rule, truth, e₁, judged, rest⟩ := check_cases run
  · exact holds
  · have judgedHolds := persistent.aside holds judged.aside
    have held (now : Bool) : I (e₁.hold id now) := persistent.minor judgedHolds (.hold e₁ id now)
    cases truth with
    | interrupted _ =>
      obtain ⟨_, rfl⟩ := rest
      exact judgedHolds
    | failed error =>
      obtain ⟨_, rfl⟩ := rest
      exact persistent.minor judgedHolds (.breakDown e₁ id _)
    | ready now =>
      dsimp only at rest
      split at rest
      · obtain ⟨outcome, e₂, ran, concluded⟩ := rest
        have performed := persistent.performCall keeps _ _ _ _ (held now) ran
        exact persistent.conclude (persistent.minor performed (.note rfl e₂)) concluded
      · obtain ⟨_, rfl⟩ := rest
        exact held now

theorem activate (id : ListenerId) : Maintains I (activate handler id) := by
  intro e result e' holds run
  cases activation run with
  | idle => exact holds
  | notInstalled found inactive installs =>
    exact persistent.change holds (.activate (.notInstalled found inactive installs))
  | notSubscribed found inactive installs subscribes detaches =>
    exact persistent.change holds
      (.activate (.notSubscribed found inactive installs subscribes detaches))
  | listening found inactive installs subscribes checked =>
    have started :=
      persistent.change holds (.activate (.listening found inactive installs subscribes))
    exact persistent.check keeps id _ _ _ started checked

omit keeps in
theorem deactivate (id : ListenerId) : Maintains I (deactivate (σ := σ) id) :=
  fun _ _ _ holds run => persistent.change holds (.deactivate run)

omit keeps in
theorem subscribe (signal : Ref) (listener : ListenerId) :
    Maintains I (subscribe (σ := σ) signal listener) := by
  refine .get_bind fun e => ?_
  split
  · exact .pure _
  · refine .bind (.modify fun e holds => ?_) fun _ => .pure _
    exact persistent.change holds (.subscribe signal listener)

omit keeps in
theorem unsubscribe (signal : Ref) (listener : ListenerId) :
    Maintains I (unsubscribe (σ := σ) signal listener) :=
  .modify fun _ holds => persistent.change holds (.unsubscribe signal listener)

omit keeps in
/-- The host application may install actions, too. -/
theorem install (action : Ref) : Maintains I (install (σ := σ) none action) := by
  intro e result e' holds run
  obtain ⟨_, _, _, rfl⟩ | ⟨_, foreign, _, rfl⟩ := install_cases run
  · exact holds
  · exact persistent.minor (persistent.aside holds (.foreign e foreign)) (.note rfl _)

omit keeps in
theorem uninstall (action : Ref) : Maintains I (uninstall (σ := σ) none action) := by
  intro e result e' holds run
  obtain ⟨_, _, rfl⟩ | ⟨_, foreign, _, rfl⟩ := uninstall_cases run
  · exact holds
  · exact persistent.minor (persistent.aside holds (.foreign e foreign)) (.note rfl _)

/-! ## Requests -/

theorem respond (callback : Callback) : Maintains I (respond handler callback) := by
  refine .get_bind fun e => ?_
  split
  · exact .pure _
  · exact persistent.check keeps _
  · exact persistent.runProgram keeps _

theorem schedule (callback : Callback) : Maintains I (schedule handler callback) := by
  intro e result e' holds run
  have dispatched (e : Engine σ) (dispatcher : Dispatcher) {event : Event}
      (unowned : event.owner? = none) (holds : I e) : I ({ e with dispatcher }.note event) :=
    persistent.minor (persistent.minor holds (.of_signals e dispatcher _ _)) (.note unowned _)
  obtain ⟨error, _, _, rfl⟩ | ⟨_, e₁, responded, rfl⟩ := schedule_cases run
  · exact dispatched e _ rfl holds
  · have takenUp : I (e.takeUp callback) := dispatched e _ rfl holds
    exact dispatched e₁ _ rfl (persistent.respond keeps callback _ _ _ takenUp responded)

theorem serve (request : Request) : Maintains I (serve handler request) := by
  cases request with
  | schedule callback => exact persistent.schedule keeps callback
  | announce signal => exact Invariant.announce keeps signal
  | set name value =>
    rw [Engine.serve]
    split
    · split
      · exact persistent.setGlobal keeps name value
      · exact .pure _
    · exact .pure _
  | advance => exact persistent.advanceTicker keeps
  | subscribe signal listener => exact persistent.subscribe signal listener
  | unsubscribe signal listener =>
    exact .bind (persistent.unsubscribe signal listener) fun _ => .pure _
  | activate rule => exact persistent.activate keeps rule
  | deactivate rule => exact .bind (persistent.deactivate rule) fun _ => .pure _
  | check rule => exact persistent.check keeps rule
  | install action => exact persistent.install action
  | uninstall action => exact .bind (persistent.uninstall action) fun _ => .pure _

omit keeps in
/-- Requests keep what changes keep. -/
theorem handle (depth : Nat) (request : Request) : Maintains I (handle depth request) := by
  induction depth generalizing request with
  | zero =>
    intro e result e' _ run
    cases run
  | succ depth ih => exact persistent.serve ih request

end Persistent

theorem Changes.across {run : Run σ α} (maintains : ∀ e, Maintains (Changes e) run) :
    Across Changes run :=
  fun e a e' ran => maintains e e a e' .refl ran

theorem changes_activate (depth : Nat) (id : ListenerId) :
    Across Changes (activate (σ := σ) (handle depth) id) :=
  .across fun e => (persistent_changes e).activate ((persistent_changes e).handle depth) id

/-! ## Books -/

section

variable {I : Engine σ → Prop} (requests : ∀ depth request, Maintains I (handle depth request))
  (takesIn : ∀ {e : Engine σ} {rule : Rule}, I e → rule.IsFresh → I (e.addListener (.rule rule)).2)

include requests

theorem maintains_deactivateAll (ids : List ListenerId) :
    Maintains I (ids.forM (deactivate (σ := σ))) := by
  induction ids with
  | nil => exact .pure _
  | cons id ids ih =>
    refine .bind (fun e done e' holds run => ?_) fun _ => ih
    have served : handle 1 (.deactivate id) e = some (.ok (), e') :=
      Run.bind_eq_some_iff.2 ⟨done, e', run, rfl⟩
    exact requests 1 _ _ _ _ holds served

theorem maintains_tick (depth : Nat) (book : Book) :
    Maintains I (book.tick (handle (σ := σ) depth)) := by
  have each : ∀ ids, Maintains I (Book.tick.go (σ := σ) (handle depth) ids) := by
    intro ids
    induction ids with
    | nil => exact .pure _
    | cons id ids ih =>
      refine .bind (requests (depth + 1) (.check id)) fun result => ?_
      cases result with
      | ok _ => exact ih
      | error _ => exact .bind ih fun _ => .pure _
  exact each book.rules

include takesIn

theorem maintains_addAll (depth : Nat) (book : Book) (records : List RuleRecord) :
    Maintains I (book.addAll (handle depth) records) := by
  induction records generalizing book with
  | nil => exact .pure _
  | cons record records ih =>
    intro e book' e' holds run
    obtain ⟨_, _, rest⟩ | ⟨rule, _, e₁, made, activated, rest⟩ := Book.addAll_cons_cases run
    · exact ih _ _ _ _ holds rest
    · have taken := takesIn holds (Rule.isFresh_of_ofRecord made)
      exact ih _ _ _ _ (requests (depth + 1) (.activate _) _ _ _ taken activated) rest

/-- Whatever is done with a book, a property is kept that requests keep and that is kept when a rule
is taken in. -/
theorem maintains_use {e e' : Engine σ} {book book' : Book} (holds : I e)
    (use : book.Use e book' e') : I e' := by
  cases use with
  | @add _ _ _ _ depth _ _ run =>
    obtain ⟨_, _, _, rfl⟩ | ⟨rule, _, made, activated, _⟩ := Book.add_cases run
    · exact holds
    · have taken := takesIn holds (Rule.isFresh_of_ofRecord made)
      exact requests (depth + 1) (.activate _) _ _ _ taken activated
  | importText run =>
    obtain ⟨_, _, _, rfl⟩ | ⟨report, _, _, added⟩ := Book.importText_cases run
    · exact holds
    · exact maintains_addAll requests takesIn _ _ _ _ _ _ holds added
  | tick run => exact maintains_tick requests _ _ _ _ _ holds run
  | removeCompleted run =>
    obtain ⟨_, ran, _⟩ := Book.removeCompleted_cases run
    exact maintains_deactivateAll requests _ _ _ _ holds ran
  | clear run => exact maintains_deactivateAll requests _ _ _ _ holds (Book.clear_cases run).1

end

end Engine

end SignalRules
