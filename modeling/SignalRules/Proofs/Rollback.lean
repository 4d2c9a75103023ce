import SignalRules.Proofs.Changes
import SignalRules.Proofs.Wiring

/-! # Taking an activation back

A rule that cannot have its action installed, or cannot be subscribed to one of the signals of its
condition, is as it was before. What was done for it until then is undone, and a little more: it is
unsubscribed from all its signals, also from those that it never came to, and entries without
listeners are dropped from the whole table. Since no table that comes about has such entries, all
that is left behind is in the journal and with the provider of the action.
-/

namespace SignalRules

namespace Engine

variable {σ : Type}

/-! ## Subscribing to one signal after the other -/

/-- A rule is subscribed to the signals before the first that refuses. -/
theorem subscribeAll_of_error {e : Engine σ} {before : List Ref} {signal : Ref}
    {error : ScriptError} (passed : ∀ earlier ∈ before, e.checkSubscribe earlier = .ok ())
    (refused : e.checkSubscribe signal = .error error) (after : List Ref) (id : ListenerId) :
    forEach (fun signal => subscribe signal id) (before ++ signal :: after) e =
      some (.error error, { e with subscriptions := e.subscriptions.addAll before id }) := by
  induction before generalizing e with
  | nil =>
    rw [List.nil_append, forEach, Run.bind_apply, subscribe, Run.get_bind_apply, refused]
    rfl
  | cons first before ih =>
    obtain ⟨allowed, rest⟩ := List.forall_mem_cons.1 passed
    rw [List.cons_append, forEach, Run.bind_apply, subscribe, Run.get_bind_apply, allowed]
    exact @ih { e with subscriptions := e.subscriptions.add first id } rest refused

theorem subscribeAll_of_ok {e e' : Engine σ} {signals : List Ref} {id : ListenerId}
    (run : forEach (fun signal => subscribe signal id) signals e = some (.ok (), e')) :
    e' = { e with subscriptions := e.subscriptions.addAll signals id } := by
  induction signals generalizing e with
  | nil =>
    cases run
    rfl
  | cons signal signals ih =>
    obtain ⟨answer, e₁, ran, run⟩ := Run.bind_eq_some_iff.1 run
    simp only [subscribe, Run.get_bind_apply] at ran
    cases allowed : e.checkSubscribe signal with
    | error _ =>
      rw [allowed] at ran
      cases ran
      cases run
    | ok _ =>
      rw [allowed] at ran
      cases ran
      exact ih run

/-- If a rule is not subscribed to all of its signals, one of them has refused. -/
theorem exists_refusal_of_subscribeAll {e e' : Engine σ} {signals : List Ref} {id : ListenerId}
    {error : ScriptError}
    (run : forEach (fun signal => subscribe signal id) signals e = some (.error error, e')) :
    ∃ before signal after, signals = before ++ signal :: after ∧
      (∀ earlier ∈ before, e.checkSubscribe earlier = .ok ()) ∧
      e.checkSubscribe signal = .error error := by
  induction signals generalizing e with
  | nil => cases run
  | cons signal signals ih =>
    obtain ⟨answer, e₁, ran, run⟩ := Run.bind_eq_some_iff.1 run
    simp only [subscribe, Run.get_bind_apply] at ran
    cases allowed : e.checkSubscribe signal with
    | error _ =>
      rw [allowed] at ran
      cases ran
      cases run
      exact ⟨[], signal, signals, rfl, List.forall_mem_nil _, allowed⟩
    | ok _ =>
      rw [allowed] at ran
      cases ran
      obtain ⟨before, refusing, after, rfl, passed, refused⟩ := ih run
      exact ⟨signal :: before, refusing, after, rfl,
        List.forall_mem_cons.2 ⟨allowed, passed⟩, refused⟩

theorem unsubscribeAll_eq (id : ListenerId) (signals : List Ref) (e : Engine σ) :
    (signals.forM fun signal => unsubscribe signal id) e =
      some (⟨⟩, { e with subscriptions := e.subscriptions.removeAll signals id }) := by
  induction signals generalizing e with
  | nil => rfl
  | cons signal signals ih => exact ih { e with subscriptions := e.subscriptions.remove signal id }

/-! ## Tables that come about -/

section

variable {P : Subscriptions → Prop}
  (added : ∀ {t : Subscriptions} (signal : Ref) (id : ListenerId), P t → P (t.add signal id))
  (removed : ∀ {t : Subscriptions} (signal : Ref) (id : ListenerId), P t → P (t.remove signal id))

include added in
theorem maintains_subscribe (signal : Ref) (id : ListenerId) :
    Maintains (fun e : Engine σ => P e.subscriptions) (subscribe signal id) := by
  refine .get_bind fun e => ?_
  split
  · exact .pure _
  · exact .bind (.modify fun e holds => added signal id holds) fun _ => .pure _

include removed in
theorem maintains_detach (id : ListenerId) (rule : Rule) :
    Maintains (fun e : Engine σ => P e.subscriptions) (detach id rule) := by
  intro e _ e' holds run
  obtain ⟨_, e₁, unsubscribes, uninstalls⟩ := Run.bind_eq_some_iff.1 run
  have held (signals : List Ref) {t : Subscriptions} (holds : P t) :
      P (t.removeAll signals id) := by
    induction signals generalizing t with
    | nil => exact holds
    | cons signal signals ih => exact ih (removed signal id holds)
  rw [unsubscribeAll_eq] at unsubscribes
  cases unsubscribes
  simp only [subscriptions_uninstall uninstalls]
  exact held rule.signals holds

include added removed in
/-- What single subscriptions and their ends keep holds of all tables that come about. -/
theorem persistent_subscriptions : Persistent fun e : Engine σ => P e.subscriptions where
  change := by
    intro e e' holds change
    cases change with
    | minor minor => exact minor.subscriptions ▸ holds
    | subscribe signal id => exact added signal id holds
    | unsubscribe signal id => exact removed signal id holds
    | activate begins =>
      cases begins with
      | notInstalled _ _ installs => exact subscriptions_install installs ▸ holds
      | notSubscribed _ _ installs subscribes detaches =>
        have subscribed := Maintains.forEach (maintains_subscribe added · _) _ _ _ _
          (subscriptions_install installs ▸ holds) subscribes
        exact maintains_detach removed _ _ _ _ _ subscribed detaches
      | listening _ _ installs subscribes =>
        have subscribed := Maintains.forEach (maintains_subscribe added · _) _ _ _ _
          (subscriptions_install installs ▸ holds) subscribes
        simpa only [start, subscriptions_modifyRule] using subscribed
    | deactivate run =>
      obtain ⟨_, rfl⟩ | ⟨rule, e₁, _, detaches, rfl⟩ := deactivation run
      · exact holds
      · have detached := maintains_detach removed _ _ _ _ _ holds detaches
        simpa only [stop, subscriptions_modifyRule] using detached

include added removed in
/-- What holds of the empty table, too, holds of the tables of all engines that come about. -/
theorem Reachable.table (empty : P {}) {e : Engine σ} (reachable : Reachable e) :
    P e.subscriptions := by
  have persistent : Persistent fun e : Engine σ => P e.subscriptions :=
    persistent_subscriptions added removed
  induction reachable with
  | create _ _ => exact empty
  | register _ registered ih =>
    unfold Engine.register at registered
    split at registered <;> cases registered
    exact ih
  | listen _ _ ih => exact ih
  | program _ ran ih => exact persistent.runProgram (persistent.handle _) _ _ _ _ ih ran
  | read _ ran ih => exact persistent.read _ _ _ _ ih ran
  | perform _ ran ih => exact persistent.perform (persistent.handle _) _ _ _ _ _ ih ran

end

theorem Reachable.subscriptions {e : Engine σ} (reachable : Reachable e) :
    e.subscriptions.Proper ∧ e.subscriptions.Filled :=
  Reachable.table (P := fun t => t.Proper ∧ t.Filled)
    (fun signal id sound => ⟨sound.1.add signal id, sound.2.add signal id⟩)
    (fun signal id sound => ⟨sound.1.remove signal id, Subscriptions.filled_remove _ signal id⟩)
    ⟨Subscriptions.proper_empty, Subscriptions.filled_empty⟩ reachable

/-! ## Failed activations -/

/-- What keeps a rule from being activated. -/
inductive Obstacle (e : Engine σ) (id : ListenerId) (rule : Rule) (error : ScriptError) : Prop where
  | install {e₁ : Engine σ} :
    install (some id) rule.actionRef e = some (.error error, e₁) → Obstacle e id rule error
  /-- The action is installed, but one of the signals, however many come before it, refuses. -/
  | subscribe {e₁ : Engine σ} {before after : List Ref} {signal : Ref} :
    install (some id) rule.actionRef e = some (.ok (), e₁) →
      rule.signals = before ++ signal :: after →
      (∀ earlier ∈ before, e₁.checkSubscribe earlier = .ok ()) →
      e₁.checkSubscribe signal = .error error → Obstacle e id rule error

/-- What the provider of an action has seen of an activation that failed, and the state that devices
are in. -/
inductive Aftermath (e : Engine σ) (id : ListenerId) (action : Ref) : List Event → σ → Prop where
  | unknown {error : ScriptError} : e.provider action.name = .error error →
    Aftermath e id action [] e.foreign
  | refused {device : Device σ} {error : ScriptError} {foreign : σ} :
    e.provider action.name = .ok (.device device) →
      device.install action e.foreign = (.error error, foreign) →
        Aftermath e id action [.installed (some id) action (.error error)] foreign
  /-- The providers of the engine itself need nothing installed. -/
  | spared {provider : Provider σ} : e.provider action.name = .ok provider →
    (∀ device, provider ≠ .device device) →
      Aftermath e id action
        [.installed (some id) action (.ok ()), .uninstalled (some id) action] e.foreign
  | undone {device : Device σ} {foreign : σ} : e.provider action.name = .ok (.device device) →
    device.install action e.foreign = (.ok (), foreign) →
      Aftermath e id action
        [.installed (some id) action (.ok ()), .uninstalled (some id) action]
        (device.uninstall action foreign)

theorem Aftermath.of_install_error {e e₁ : Engine σ} {id : ListenerId} {action : Ref}
    {error : ScriptError} (run : install (some id) action e = some (.error error, e₁)) :
    ∃ events foreign, Aftermath e id action events foreign ∧
      e₁ = { e with foreign, journal := e.journal ++ events } := by
  cases known : e.provider action.name with
  | error _ =>
    cases (install_of_unknown known).symm.trans run
    exact ⟨[], e.foreign, .unknown known, by simp⟩
  | ok provider =>
    by_cases foreign : ∃ device, provider = .device device
    · obtain ⟨device, rfl⟩ := foreign
      rw [install_of_device known] at run
      obtain ⟨result, rfl⟩ := Prod.mk.inj (Option.some.inj run)
      rw [result]
      exact ⟨_, _, .refused known (Prod.ext result rfl), rfl⟩
    · cases (install_of_own known (not_exists.1 foreign)).symm.trans run

/-- An installation that is undone, whatever has been subscribed in the meantime. -/
theorem Aftermath.of_install_ok {e e₁ : Engine σ} {id : ListenerId} {action : Ref}
    (run : install (some id) action e = some (.ok (), e₁)) :
    ∃ events foreign, Aftermath e id action events foreign ∧ e₁.subscriptions = e.subscriptions ∧
      ∀ t, uninstall (some id) action { e₁ with subscriptions := t } =
        some ((), { e with subscriptions := t, foreign, journal := e.journal ++ events }) := by
  cases known : e.provider action.name with
  | error _ => cases (install_of_unknown known).symm.trans run
  | ok provider =>
    by_cases foreign : ∃ device, provider = .device device
    · obtain ⟨device, rfl⟩ := foreign
      rw [install_of_device known] at run
      obtain ⟨result, rfl⟩ := Prod.mk.inj (Option.some.inj run)
      refine ⟨_, _, .undone known (Prod.ext result rfl), rfl, fun t => ?_⟩
      refine (uninstall_of_device known (by rfl)).trans ?_
      simp [note, result]
    · have own := not_exists.1 foreign
      cases (install_of_own known own).symm.trans run
      refine ⟨_, _, .spared known own, rfl, fun t => ?_⟩
      refine (uninstall_of_own known own (by rfl)).trans ?_
      simp [note]

/-- What a failed activation leaves: an entry or two in the journal, and what the provider of the
action makes of them. All else is as it was, the table of subscriptions with its order included. -/
structure Untraced (e e' : Engine σ) (id : ListenerId) (rule : Rule) : Prop where
  same : e' = { e with foreign := e'.foreign, journal := e'.journal }
  inactive : e'.rule? id = some rule ∧ rule.state = .inactive
  aftermath : ∃ events, e'.journal = e.journal ++ events ∧
    Aftermath e id rule.actionRef events e'.foreign
  /-- A signal has changed only if it is a device's, and the device has changed it by itself while
  its action was installed and uninstalled. -/
  signals : ∀ signal, (∀ device, e.provider signal.name = .ok (.device device) →
    (device.read signal e'.foreign).1 = (device.read signal e.foreign).1) →
      e'.outcome signal = e.outcome signal

theorem Untraced.of_aftermath {e : Engine σ} {id : ListenerId} {rule : Rule}
    (found : e.rule? id = some rule) (inactive : rule.state = .inactive) {events : List Event}
    {foreign : σ} (aftermath : Aftermath e id rule.actionRef events foreign) :
    Untraced e { e with foreign, journal := e.journal ++ events } id rule where
  same := rfl
  inactive := ⟨found, inactive⟩
  aftermath := ⟨events, rfl, aftermath⟩
  signals := by
    intro signal reads
    have still : { e with foreign, journal := e.journal ++ events }.provider signal.name =
        e.provider signal.name := rfl
    simp only [outcome, signalOutcome, still]
    cases known : e.provider signal.name with
    | error error => rfl
    | ok provider =>
      cases provider with
      | globals =>
        simp only
        cases Globals.localName signal.name <;> rfl
      | diagnostics =>
        simp only
        cases Diagnostics.checkSignal signal.name <;> rfl
      | device device => exact reads device known

/-- If the action of an inactive rule that is not subscribed cannot be installed, or one of its
signals refuses, the rule is not activated, and the engine is as it was before. Nobody is told of
anything: what requests would do does not matter. -/
theorem activate_of_obstacle {e : Engine σ} (reachable : Reachable e) {id : ListenerId}
    {rule : Rule} (found : e.rule? id = some rule) (inactive : rule.state = .inactive)
    (unsubscribed : ∀ signal ∈ rule.signals, id ∉ e.subscriptions.listeners signal)
    {error : ScriptError} (obstacle : Obstacle e id rule error) (handler : Handler σ) :
    ∃ e', activate handler id e = some (.error error, e') ∧ Untraced e e' id rule := by
  rw [activate, Run.get_bind_apply, found]
  simp only [if_neg (Decidable.not_not.2 inactive)]
  cases obstacle with
  | install run =>
    obtain ⟨events, foreign, aftermath, rfl⟩ := Aftermath.of_install_error run
    exact ⟨_, by rw [Run.bind_apply, run]; rfl, .of_aftermath found inactive aftermath⟩
  | @subscribe e₁ before after signal run split passed refused =>
    obtain ⟨events, foreign, aftermath, same, undone⟩ := Aftermath.of_install_ok run
    refine ⟨_, ?_, .of_aftermath found inactive aftermath⟩
    have subscribes := subscribeAll_of_error passed refused after id
    rw [← split, same] at subscribes
    -- the rule is unsubscribed from all its signals, not just from those before the refusal
    have among : before ⊆ rule.signals := split ▸ List.subset_append_left _ _
    obtain ⟨proper, filled⟩ := reachable.subscriptions
    have cleared := Subscriptions.removeAll_addAll proper filled among unsubscribed
    have detaches : detach id rule { e₁ with
        subscriptions := e.subscriptions.addAll before id } =
          some ((), { e with foreign, journal := e.journal ++ events }) := by
      rw [detach, Run.bind_apply, unsubscribeAll_eq]
      simp only [cleared]
      exact undone _
    exact Run.bind_eq_some_iff.2 ⟨_, _, run, Run.bind_eq_some_iff.2 ⟨_, _, subscribes,
      Run.bind_eq_some_iff.2 ⟨_, _, detaches, rfl⟩⟩⟩

/-! ## A lamp -/

/-- A lamp whose glow can be read, but does not say when it changes. It counts what is installed. -/
def lamp : Device Nat where
  name := "Lamp"
  signalNames _ _ := ["Lamp.Glow"]
  signal _ _ := .ok { name := "Lamp.Glow", display := "Glow", result := .number }
  source _ _ := .ok ()
  subscribe ref _ := .error (.lookup (.unknownSignal ref.name))
  read _ s := (.ready (.number (.ofInt 1)), s)
  actionNames _ _ := ["Lamp.Dim"]
  action _ _ := .ok { name := "Lamp.Dim", display := "Dim", arguments := [] }
  executor _ _ := .ok ()
  perform _ _ := .finish (.ready ())
  install _ s := (.ok (), s + 1)
  uninstall _ s := s - 1

/-- Dim the lamp when it glows, or when somebody says so. -/
def dimming : Rule where
  host := ⟨1⟩
  condition := .operator (.connective .or)
    [.signal ⟨⟨"Signals.Dim", ⟨1⟩⟩, { name := "Signals.Dim", display := "Dim", result := .number }⟩,
      .signal ⟨⟨"Lamp.Glow", ⟨1⟩⟩, { name := "Lamp.Glow", display := "Glow", result := .number }⟩]
  action :=
    ⟨false, ⟨⟨"Lamp.Dim", ⟨1⟩⟩, { name := "Lamp.Dim", display := "Dim", arguments := [] }⟩, []⟩

def glowing : Engine Nat :=
  { create {} 0 with devices := [lamp], listeners := [.rule dimming] }

theorem reachable_glowing : Reachable glowing := by
  have new : lamp.name ∉ (create {} 0).providerNames := by
    simp [providerNames, sortTexts, create, lamp, Globals.providerName, Diagnostics.providerName]
  exact ((Reachable.create {} 0).register (if_neg new)).listen (.rule dimming)

/-- The rule is subscribed to its first signal, but not to its second. -/
theorem untraced_of_glowing : ∃ e',
    activate (handle 3) ⟨1⟩ glowing =
      some (.error (.lookup (.unknownSignal "Lamp.Glow")), e') ∧
    Untraced glowing e' ⟨1⟩ dimming := by
  have obstacle : Obstacle glowing ⟨1⟩ dimming (.lookup (.unknownSignal "Lamp.Glow")) := by
    have split : dimming.signals = [⟨"Signals.Dim", ⟨1⟩⟩] ++ ⟨"Lamp.Glow", ⟨1⟩⟩ :: [] := by
      decide +kernel
    exact .subscribe rfl split (by decide +kernel) (by decide +kernel)
  exact activate_of_obstacle reachable_glowing rfl rfl (by decide +kernel) obstacle (handle 3)

end Engine

end SignalRules
