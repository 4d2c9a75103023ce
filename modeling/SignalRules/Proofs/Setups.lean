import Mathlib.Data.List.Chain
import SignalRules.Proofs.Rollback

/-! # Installations for rules

What is done to the action of a rule, step by step: it is installed when the rule comes to listen,
and uninstalled when an activation is taken back or the rule is deactivated. Here each activation
and each deactivation is boiled down to the setups that it makes; how installations and their
undoing add up is a matter of these alone.
-/

namespace SignalRules

/-! ## Taking turns -/

/-- An installation that succeeded, or the undoing of one. -/
inductive SetupKind where
  | installed
  | uninstalled
  deriving DecidableEq

namespace SetupKind

/-- Installations and their undoing take turns, beginning with an installation. -/
def TakeTurns (kinds : List SetupKind) : Prop :=
  (uninstalled :: kinds).IsChain (· ≠ ·)

/-- Whether the last installation has not been undone. -/
def stands (kinds : List SetupKind) : Bool :=
  kinds.getLast? = some .installed

theorem takeTurns_concat (kinds : List SetupKind) (kind : SetupKind) :
    TakeTurns (kinds ++ [kind]) ↔
      TakeTurns kinds ∧ (stands kinds = true ↔ kind = .uninstalled) := by
  have last : (uninstalled :: kinds).getLast? = some (kinds.getLast?.getD .uninstalled) :=
    List.getLast?_cons
  rw [TakeTurns, ← List.cons_append, List.isChain_append, last]
  refine and_congr_right fun _ => ?_
  rcases ended : kinds.getLast? with _ | _ | _ <;> cases kind <;> simp [stands, ended]

/-- Setups of which so many undo nothing. -/
structure Ledger (kinds : List SetupKind) (strays : Nat) : Prop where
  turns : TakeTurns kinds ↔ strays = 0
  /-- After an installation comes its undoing. -/
  undone : kinds.IsChain fun first next => first = .installed → next = .uninstalled
  balance : kinds.count .uninstalled + (stands kinds).toNat = kinds.count .installed + strays

namespace Ledger

variable {kinds : List SetupKind} {strays : Nat}

theorem nil : Ledger [] 0 :=
  ⟨by simp [TakeTurns], .nil, rfl⟩

theorem install (ledger : Ledger kinds strays) (fallen : stands kinds = false) :
    Ledger (kinds ++ [.installed]) strays where
  turns := by simp [takeTurns_concat, fallen, ledger.turns]
  undone := by
    refine List.isChain_append.2 ⟨ledger.undone, .singleton _, fun first last next _ same => ?_⟩
    subst same
    simp [stands, Option.mem_def.1 last] at fallen
  balance := by
    have before := ledger.balance
    have stood : stands (kinds ++ [.installed]) = true := by simp [stands]
    rw [fallen] at before
    rw [stood]
    simp at before ⊢
    omega

theorem uninstall (ledger : Ledger kinds strays) :
    Ledger (kinds ++ [.uninstalled]) (strays + (!stands kinds).toNat) where
  turns := by
    rw [takeTurns_concat, ledger.turns]
    cases stands kinds <;> simp
  undone := by
    refine List.isChain_append.2 ⟨ledger.undone, .singleton _, fun first _ next single _ => ?_⟩
    exact (Option.some.inj single).symm
  balance := by
    have before := ledger.balance
    have fallen : stands (kinds ++ [.uninstalled]) = false := by simp [stands]
    rw [fallen]
    cases stood : stands kinds <;> simp [stood] at before ⊢ <;> omega

end Ledger

end SetupKind

/-! ## Setups in the journal -/

/-- What was done for a rule to its action. -/
structure Setup where
  owner : ListenerId
  action : Ref
  kind : SetupKind

/-- An attempt to install that fails counts for nothing. -/
def Event.setup? : Event → Option Setup
  | .installed (some owner) action (.ok _) => some ⟨owner, action, .installed⟩
  | .uninstalled (some owner) action => some ⟨owner, action, .uninstalled⟩
  | _ => none

theorem Event.owner?_of_setup? {event : Event} {setup : Setup} (made : event.setup? = some setup) :
    event.owner? = some setup.owner := by
  unfold setup? at made
  split at made <;> cases made <;> rfl

def setups (journal : List Event) : List Setup :=
  journal.filterMap Event.setup?

/-- What was done for one rule, first to last. -/
def setupsFor (id : ListenerId) (journal : List Event) : List SetupKind :=
  ((setups journal).filter (·.owner = id)).map Setup.kind

/-- How often this was done to an action, for whatever rules. -/
def setupCount (action : Ref) (kind : SetupKind) (journal : List Event) : Nat :=
  (setups journal).countP fun setup => setup.action = action ∧ setup.kind = kind

theorem setups_append (first rest : List Event) :
    setups (first ++ rest) = setups first ++ setups rest :=
  List.filterMap_append

theorem setupsFor_append (id : ListenerId) (first rest : List Event) :
    setupsFor id (first ++ rest) = setupsFor id first ++ setupsFor id rest := by
  simp [setupsFor, setups_append]

theorem setupsFor_of_unowned {id : ListenerId} {events : List Event}
    (unowned : ∀ event ∈ events, event.owner? ≠ some id) : setupsFor id events = [] := by
  rw [setupsFor, List.map_eq_nil_iff, List.filter_eq_nil_iff]
  intro setup member
  obtain ⟨event, inEvents, made⟩ := List.mem_filterMap.1 member
  simp only [decide_eq_true_eq]
  rintro rfl
  exact unowned event inEvents (Event.owner?_of_setup? made)

namespace Engine

variable {σ : Type}

/-! ## Rules that are left alone -/

/-- Nothing is done to the action of a rule, and the rule is neither activated nor deactivated. -/
structure Spares (id : ListenerId) (e e' : Engine σ) : Prop where
  providers : ∀ name, (e.provider name).isOk → (e'.provider name).isOk
  journal : ∃ events, e'.journal = e.journal ++ events ∧
    ∀ event ∈ events, event.owner? ≠ some id
  rules : Option.Rel Rule.RunsOn (e.rule? id) (e'.rule? id)

theorem Spares.later {id : ListenerId} {e e' : Engine σ} (spares : Spares id e e') {rule : Rule}
    (found : e.rule? id = some rule) : ∃ rule', e'.rule? id = some rule' ∧ rule.RunsOn rule' := by
  have rules := spares.rules
  rw [found] at rules
  generalize e'.rule? id = after at rules
  cases rules with
  | some runsOn => exact ⟨_, rfl, runsOn⟩

theorem Spares.earlier {id : ListenerId} {e e' : Engine σ} (spares : Spares id e e') {rule' : Rule}
    (found : e'.rule? id = some rule') : ∃ rule, e.rule? id = some rule ∧ rule.RunsOn rule' := by
  have rules := spares.rules
  rw [found] at rules
  generalize e.rule? id = before at rules
  cases rules with
  | some runsOn => exact ⟨_, rfl, runsOn⟩

theorem Spares.of_minor {e e' : Engine σ} (minor : Minor e e') (id : ListenerId) :
    Spares id e e' where
  providers name known := by rwa [provider_congr minor.devices]
  journal := by
    obtain ⟨events, grown, unowned⟩ := minor.journal
    exact ⟨events, grown, fun event member => by simp [unowned event member]⟩
  rules := minor.rules id

theorem Spares.of_listeners {e e' : Engine σ} {id : ListenerId} (devices : e'.devices = e.devices)
    (journal : e'.journal = e.journal) (same : e'.rule? id = e.rule? id) : Spares id e e' where
  providers name known := by rwa [provider_congr devices]
  journal := ⟨[], by simp [journal], by simp⟩
  rules := by
    rw [same]
    cases e.rule? id with
    | none => exact .none
    | some rule => exact .some (.refl rule)

theorem provider_of_registered {e e' : Engine σ} {device : Device σ}
    (registered : e.register device = .ok e') {name : String} {provider : Provider σ}
    (known : e.provider name = .ok provider) : e'.provider name = .ok provider := by
  unfold Engine.register at registered
  split at registered <;> cases registered
  unfold Engine.provider at known ⊢
  split at known
  · cases known
  · split at known
    · simp_all
    · split at known
      · simp_all
      · split at known
        · simp_all [List.find?_append]
        · cases known

theorem Spares.of_registered {e e' : Engine σ} {device : Device σ}
    (registered : e.register device = .ok e') (id : ListenerId) : Spares id e e' where
  providers name isOk := by
    cases known : e.provider name with
    | error error =>
      rw [known] at isOk
      cases isOk
    | ok provider =>
      rw [provider_of_registered registered known]
      rfl
  journal := by
    unfold Engine.register at registered
    split at registered <;> cases registered
    exact ⟨[], by simp, by simp⟩
  rules := by
    unfold Engine.register at registered
    split at registered <;> cases registered
    exact Minor.rules_of_listeners rfl id

/-! ## What is done to one rule -/

/-- This has been done to the action of a rule, and nothing to any other; the rule may be in another
state. -/
structure Sets (id : ListenerId) (rule rule' : Rule) (kinds : List SetupKind) (e e' : Engine σ) :
    Prop where
  found : e.rule? id = some rule
  devices : e'.devices = e.devices
  known : kinds ≠ [] → (e.provider rule.actionRef.name).isOk
  journal : ∃ events, e'.journal = e.journal ++ events ∧
    (∀ event ∈ events, event.owner? = some id) ∧
    setups events = kinds.map fun kind => ⟨id, rule.actionRef, kind⟩
  rules : ∀ other, e'.rule? other = if other = id then some rule' else e.rule? other
  action : rule'.actionRef = rule.actionRef

theorem Sets.spares {id other : ListenerId} {rule rule' : Rule} {kinds : List SetupKind}
    {e e' : Engine σ} (sets : Sets id rule rule' kinds e e') (ne : other ≠ id) :
    Spares other e e' where
  providers name known := by rwa [provider_congr sets.devices]
  journal := by
    obtain ⟨events, grown, owned, _⟩ := sets.journal
    refine ⟨events, grown, fun event member same => ne ?_⟩
    exact Option.some.inj (same.symm.trans (owned event member))
  rules := by
    rw [sets.rules, if_neg ne]
    cases e.rule? other with
    | none => exact .none
    | some rule => exact .some (.refl rule)

/-- To subscribe changes the table of subscriptions only. -/
theorem subscribeAll_frame {id : ListenerId} {signals : List Ref} {e e' : Engine σ}
    {result : Except ScriptError Unit}
    (run : forEach (fun signal => subscribe signal id) signals e = some (result, e')) :
    ∃ t, e' = { e with subscriptions := t } := by
  induction signals generalizing e with
  | nil =>
    cases run
    exact ⟨_, rfl⟩
  | cons signal signals ih =>
    rw [forEach] at run
    obtain ⟨answer, e₁, ran, run⟩ := Run.bind_eq_some_iff.1 run
    simp only [subscribe, Run.get_bind_apply] at ran
    cases allowed : e.checkSubscribe signal with
    | error _ =>
      rw [allowed] at ran
      cases ran
      cases run
      exact ⟨_, rfl⟩
    | ok _ =>
      rw [allowed] at ran
      cases ran
      obtain ⟨t, rfl⟩ := ih run
      exact ⟨t, rfl⟩

/-- The setupEntry that a setup leaves in the journal, if somebody provides the action. -/
def setupEntry (e : Engine σ) (action : Ref) (event : Event) : List Event :=
  if (e.provider action.name).isOk then [event] else []

theorem setupEntry_of_provided {e : Engine σ} {action : Ref} (known : (e.provider action.name).isOk)
    (event : Event) : e.setupEntry action event = [event] :=
  if_pos known

theorem install_frame {owner : Option ListenerId} {action : Ref} {e e' : Engine σ}
    {result : Except ScriptError Unit} (run : install owner action e = some (result, e')) :
    (result = .ok () → (e.provider action.name).isOk) ∧ ∃ foreign,
      e' = { e with
        foreign
        journal := e.journal ++ e.setupEntry action (.installed owner action result) } := by
  obtain ⟨error, unknown, rfl, rfl⟩ | ⟨_, foreign, known, rfl⟩ := install_cases run
  · exact ⟨nofun, e'.foreign, by simp [setupEntry, unknown, Except.isOk, Except.toBool]⟩
  · have provided : (e.provider action.name).isOk := congrArg Except.isOk known
    exact ⟨fun _ => provided, foreign, by rw [setupEntry_of_provided provided]; rfl⟩

theorem uninstall_frame {owner : Option ListenerId} {action : Ref} {e e' : Engine σ} {done : Unit}
    (run : uninstall owner action e = some (done, e')) : ∃ foreign,
      e' = { e with
        foreign
        journal := e.journal ++ e.setupEntry action (.uninstalled owner action) } := by
  obtain ⟨error, unknown, rfl⟩ | ⟨_, foreign, known, rfl⟩ := uninstall_cases run
  · exact ⟨e'.foreign, by simp [setupEntry, unknown, Except.isOk, Except.toBool]⟩
  · exact ⟨foreign, by rw [setupEntry_of_provided (congrArg Except.isOk known)]; rfl⟩

/-- To detach a rule changes the table of subscriptions besides. -/
theorem detach_frame {id : ListenerId} {rule : Rule} {e e' : Engine σ} {done : Unit}
    (run : detach id rule e = some (done, e')) : ∃ t foreign,
      e' = { e with
        subscriptions := t, foreign
        journal := e.journal ++
          e.setupEntry rule.actionRef (.uninstalled (some id) rule.actionRef) } := by
  obtain ⟨_, e₁, unsubscribes, uninstalls⟩ := Run.bind_eq_some_iff.1 run
  rw [unsubscribeAll_eq] at unsubscribes
  cases unsubscribes
  obtain ⟨foreign, rfl⟩ := uninstall_frame uninstalls
  exact ⟨_, foreign, rfl⟩

theorem rule?_unchanged {e e' : Engine σ} {id : ListenerId} {rule : Rule}
    (found : e.rule? id = some rule) (listeners : e'.listeners = e.listeners)
    (other : ListenerId) : e'.rule? other = if other = id then some rule else e.rule? other := by
  rw [rule?_congr listeners]
  split
  · rename_i same
    rw [same, found]
  · rfl

theorem rule?_modified {e e₁ : Engine σ} {id : ListenerId} {rule : Rule}
    (found : e.rule? id = some rule) (listeners : e₁.listeners = e.listeners) (f : Rule → Rule)
    (other : ListenerId) :
    (e₁.modifyRule id f).rule? other = if other = id then some (f rule) else e.rule? other := by
  rw [rule?_modifyRule, rule?_unchanged found listeners]
  split <;> rfl

/-- How an activation ends, up to where the rule listens. -/
theorem Begins.sets {id : ListenerId} {e e' : Engine σ} (begins : Begins id e e') :
    ∃ rule rule' kinds, rule.state = .inactive ∧ Sets id rule rule' kinds e e' ∧
      ((rule' = rule ∧ (kinds = [] ∨ kinds = [.installed, .uninstalled])) ∨
        (rule'.state = .active ∧ kinds = [.installed])) := by
  cases begins with
  | @notInstalled _ rule error found inactive installs =>
    obtain ⟨_, foreign, rfl⟩ := install_frame installs
    refine ⟨rule, rule, [], inactive, ?_, .inl ⟨rfl, .inl rfl⟩⟩
    refine ⟨found, rfl, nofun, ⟨_, rfl, ?_, ?_⟩, rule?_unchanged found rfl, rfl⟩
    · unfold setupEntry
      split <;> simp [Event.owner?]
    · unfold setupEntry
      split <;> rfl
  | @notSubscribed _ _ _ rule error _ found inactive installs subscribes detaches =>
    obtain ⟨provided, foreign, rfl⟩ := install_frame installs
    obtain ⟨t, rfl⟩ := subscribeAll_frame subscribes
    obtain ⟨t', foreign', rfl⟩ := detach_frame detaches
    have known := provided rfl
    refine ⟨rule, rule, _, inactive, ?_, .inl ⟨rfl, .inr rfl⟩⟩
    refine ⟨found, rfl, fun _ => known, ?_, rule?_unchanged found rfl, rfl⟩
    refine ⟨[.installed (some id) rule.actionRef (.ok ()), .uninstalled (some id) rule.actionRef],
      ?_, by simp [Event.owner?], rfl⟩
    change e.journal ++ e.setupEntry _ _ ++ e.setupEntry _ _ = _
    rw [setupEntry_of_provided known, setupEntry_of_provided known, List.append_assoc]
    rfl
  | @listening _ _ rule found inactive installs subscribes =>
    obtain ⟨provided, foreign, rfl⟩ := install_frame installs
    obtain ⟨t, rfl⟩ := subscribeAll_frame subscribes
    have known := provided rfl
    refine ⟨rule, { rule with state := .active, held := false }, _, inactive, ?_, .inr ⟨rfl, rfl⟩⟩
    refine ⟨found, ?_, fun _ => known, ⟨[.installed (some id) rule.actionRef (.ok ())], ?_,
      by simp [Event.owner?], rfl⟩, rule?_modified found (by rfl) _, rfl⟩
    · rw [start, devices_modifyRule]
    · rw [start, journal_modifyRule]
      change e.journal ++ e.setupEntry _ _ = _
      rw [setupEntry_of_provided known]

/-- Whether there is something to be uninstalled for a rule, installed or not. -/
def provides (e : Engine σ) (id : ListenerId) : Bool :=
  match e.rule? id with
  | some rule => (e.provider rule.actionRef.name).isOk
  | none => false

theorem provides_eq {e : Engine σ} {id : ListenerId} {rule : Rule}
    (found : e.rule? id = some rule) :
    e.provides id = (e.provider rule.actionRef.name).isOk := by
  rw [provides, found]

theorem exists_rule_of_provides {e : Engine σ} {id : ListenerId} (provides : e.provides id) :
    ∃ rule, e.rule? id = some rule := by
  unfold Engine.provides at provides
  split at provides
  · exact ⟨_, ‹_›⟩
  · cases provides

/-- A deactivation uninstalls. -/
theorem deactivate_sets {id : ListenerId} {e e' : Engine σ} {done : Unit}
    (run : deactivate id e = some (done, e')) :
    (e.rule? id = none ∧ e' = e) ∨ ∃ rule rule',
      Sets id rule rule' (if e.provides id then [.uninstalled] else []) e e' ∧
      rule'.state ≠ .active := by
  obtain absent | ⟨rule, e₁, found, detaches, rfl⟩ := deactivation run
  · exact .inl absent
  · obtain ⟨t, foreign, rfl⟩ := detach_frame detaches
    rw [provides_eq found]
    refine .inr ⟨rule, if rule.state = .active then { rule with state := .inactive } else rule,
      ⟨found, ?_, ?_, ?_, rule?_modified found (by rfl) _, ?_⟩, ?_⟩
    · rw [stop, devices_modifyRule]
    · split
      · exact fun _ => ‹_›
      · exact absurd rfl
    · refine ⟨_, by rw [stop, journal_modifyRule], ?_, ?_⟩
      · unfold setupEntry
        split <;> simp [Event.owner?]
      · unfold setupEntry
        split <;> rfl
    · split <;> rfl
    · split
      · simp
      · assumption

end Engine

end SignalRules
