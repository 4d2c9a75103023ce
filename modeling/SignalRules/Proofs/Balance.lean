import Mathlib.Algebra.BigOperators.Group.Finset.Piecewise
import Mathlib.Algebra.Order.BigOperators.Group.Finset
import SignalRules.Proofs.Setups

/-! # Installed and uninstalled

A deactivation does not ask whether anything is installed for its rule. Installing and uninstalling
take turns up to the first deactivation that finds nothing installed, which is never that of an
active rule; from then on an action is uninstalled once too often for each of these deactivations,
even if another rule is active that has it installed.
-/

namespace SignalRules

open SetupKind (Ledger TakeTurns stands)

namespace Engine

variable {σ : Type}

/-! ## Deactivations -/

/-- Whether the action of a rule is installed for it. -/
def hasInstalled (e : Engine σ) (id : ListenerId) : Bool :=
  stands (setupsFor id e.journal)

/-- A deactivation of a rule, and the engine that it found. -/
structure Deactivation (σ : Type) where
  rule : ListenerId
  moment : Engine σ

/-- Whether the action of a rule is uninstalled although it is not installed. -/
def Deactivation.isStray (d : Deactivation σ) : Bool :=
  d.moment.provides d.rule && !d.moment.hasInstalled d.rule

/-- How many of these deactivations of a rule are stray. -/
def strays (id : ListenerId) (ds : List (Deactivation σ)) : Nat :=
  ds.countP fun d => d.rule = id && d.isStray

/-- One change after another, from a new engine on, with all deactivations on the way. -/
inductive Chronicle : List (Deactivation σ) → Engine σ → Prop where
  | create (config : Config) (foreign : σ) : Chronicle [] (create config foreign)
  | register {ds : List (Deactivation σ)} {e e' : Engine σ} {device : Device σ} : Chronicle ds e →
    e.register device = .ok e' → Chronicle ds e'
  | listen {ds : List (Deactivation σ)} {e : Engine σ} (name : String)
    (respond : String → Program σ (Except ScriptError Unit)) : Chronicle ds e →
    Chronicle ds (e.addListener (.external name respond)).2
  | addRule {ds : List (Deactivation σ)} {e : Engine σ} {rule : Rule} : Chronicle ds e →
    rule.state = .inactive → Chronicle ds (e.addListener (.rule rule)).2
  | minor {ds : List (Deactivation σ)} {e e' : Engine σ} : Chronicle ds e → Minor e e' →
    Chronicle ds e'
  | resubscribe {ds : List (Deactivation σ)} {e : Engine σ} (t : Subscriptions) : Chronicle ds e →
    Chronicle ds { e with subscriptions := t }
  | activate {ds : List (Deactivation σ)} {e e' : Engine σ} {id : ListenerId} : Chronicle ds e →
    Begins id e e' → Chronicle ds e'
  | deactivate {ds : List (Deactivation σ)} {e e' : Engine σ} {id : ListenerId} {done : Unit} :
    Chronicle ds e → deactivate id e = some (done, e') → Chronicle (ds ++ [⟨id, e⟩]) e'

/-! ## The balance of one rule -/

/-- What has been done to the action of a rule until now. -/
structure Balanced (ds : List (Deactivation σ)) (e : Engine σ) (id : ListenerId) : Prop where
  /-- It was always the same action. -/
  owned : ∀ setup ∈ setups e.journal, setup.owner = id →
    ∃ rule, e.rule? id = some rule ∧ rule.actionRef = setup.action
  /-- What is installed can be uninstalled. -/
  provided : e.hasInstalled id → e.provides id
  active : ∀ rule, e.rule? id = some rule → rule.state = .active → e.hasInstalled id
  inactive : ∀ rule, e.rule? id = some rule → rule.state = .inactive → e.hasInstalled id = false
  ledger : Ledger (setupsFor id e.journal) (strays id ds)

theorem Balanced.spared {ds : List (Deactivation σ)} {e e' : Engine σ} {id : ListenerId}
    (balanced : Balanced ds e id) (spares : Spares id e e') : Balanced ds e' id := by
  obtain ⟨events, grown, unowned⟩ := spares.journal
  have same : setupsFor id e'.journal = setupsFor id e.journal := by
    rw [grown, setupsFor_append, setupsFor_of_unowned unowned, List.append_nil]
  have installed : e'.hasInstalled id = e.hasInstalled id := congrArg stands same
  constructor
  case owned =>
    intro setup member own
    rw [grown, setups_append, List.mem_append] at member
    rcases member with old | new
    · obtain ⟨rule, found, action⟩ := balanced.owned setup old own
      obtain ⟨rule', found', runsOn⟩ := spares.later found
      exact ⟨rule', found', (actionRef_eq_of_parts runsOn.parts).trans action⟩
    · obtain ⟨event, inEvents, made⟩ := List.mem_filterMap.1 new
      exact absurd (own ▸ Event.owner?_of_setup? made) (unowned event inEvents)
  case provided =>
    intro left
    have provides := balanced.provided (installed ▸ left)
    obtain ⟨rule, found⟩ := exists_rule_of_provides provides
    obtain ⟨rule', found', runsOn⟩ := spares.later found
    rw [provides_eq found] at provides
    rw [provides_eq found', actionRef_eq_of_parts runsOn.parts]
    exact spares.providers _ provides
  case active =>
    intro rule' found' active
    obtain ⟨rule, found, runsOn⟩ := spares.earlier found'
    exact installed ▸ balanced.active rule found (runsOn.was_active active)
  case inactive =>
    intro rule' found' inactive
    obtain ⟨rule, found, runsOn⟩ := spares.earlier found'
    exact installed ▸ balanced.inactive rule found (runsOn.was_inactive inactive)
  case ledger => exact same ▸ balanced.ledger

theorem setupsFor_of_sets {id : ListenerId} {rule rule' : Rule} {kinds : List SetupKind}
    {e e' : Engine σ} (sets : Sets id rule rule' kinds e e') :
    setupsFor id e'.journal = setupsFor id e.journal ++ kinds := by
  obtain ⟨events, grown, _, made⟩ := sets.journal
  rw [grown, setupsFor_append, setupsFor.eq_def id events, made]
  simp [List.filter_map, Function.comp_def]

/-- What is done to the action of a rule itself keeps the balance if it leaves the action installed
just when the rule is active. -/
theorem Balanced.sets {ds ds' : List (Deactivation σ)} {e e' : Engine σ} {id : ListenerId}
    {rule rule' : Rule} {kinds : List SetupKind} (balanced : Balanced ds e id)
    (sets : Sets id rule rule' kinds e e')
    (active : rule'.state = .active → e'.hasInstalled id)
    (inactive : rule'.state = .inactive → e'.hasInstalled id = false)
    (ledger : Ledger (setupsFor id e.journal ++ kinds) (strays id ds')) : Balanced ds' e' id := by
  have found' : e'.rule? id = some rule' := by rw [sets.rules, if_pos rfl]
  constructor
  case owned =>
    intro setup member own
    obtain ⟨events, grown, _, made⟩ := sets.journal
    rw [grown, setups_append, made, List.mem_append] at member
    refine ⟨rule', found', sets.action.trans ?_⟩
    rcases member with old | new
    · obtain ⟨_, found, action⟩ := balanced.owned setup old own
      cases found.symm.trans sets.found
      exact action
    · obtain ⟨kind, _, rfl⟩ := List.mem_map.1 new
      rfl
  case provided =>
    intro left
    rw [provides_eq found', sets.action, provider_congr sets.devices]
    by_cases none : kinds = []
    · subst none
      rw [hasInstalled, setupsFor_of_sets sets, List.append_nil] at left
      have provides := balanced.provided left
      rwa [provides_eq sets.found] at provides
    · exact sets.known none
  case active =>
    intro _ found isActive
    cases found.symm.trans found'
    exact active isActive
  case inactive =>
    intro _ found isInactive
    cases found.symm.trans found'
    exact inactive isInactive
  case ledger => rwa [setupsFor_of_sets sets]

/-- What nobody provides is not installed. -/
theorem Balanced.hasInstalled_eq_false {ds : List (Deactivation σ)} {e : Engine σ} {id : ListenerId}
    (balanced : Balanced ds e id) (bare : e.provides id = false) : e.hasInstalled id = false := by
  cases left : e.hasInstalled id with
  | false => rfl
  | true => exact (balanced.provided left).symm.trans bare

theorem Balanced.activate {ds : List (Deactivation σ)} {e e' : Engine σ} {id owner : ListenerId}
    (balanced : Balanced ds e id) (begins : Begins owner e e') : Balanced ds e' id := by
  obtain ⟨rule, rule', kinds, wasInactive, sets, ended⟩ := begins.sets
  by_cases own : id = owner
  · subst own
    have fallen : stands (setupsFor id e.journal) = false :=
      balanced.inactive rule sets.found wasInactive
    have installed : e'.hasInstalled id = stands (setupsFor id e.journal ++ kinds) :=
      congrArg stands (setupsFor_of_sets sets)
    have once := balanced.ledger.install fallen
    obtain ⟨rfl, rfl | rfl⟩ | ⟨isActive, rfl⟩ := ended
    · refine balanced.sets sets (by simp [wasInactive]) ?_ (by simpa using balanced.ledger)
      simp [installed, fallen]
    · refine balanced.sets sets (by simp [wasInactive]) (by simp [installed, stands]) ?_
      have twice := once.uninstall
      simpa [stands] using twice
    · exact balanced.sets sets (by simp [installed, stands]) (by simp [isActive]) once
  · exact balanced.spared (sets.spares own)

theorem strays_concat (id : ListenerId) (ds : List (Deactivation σ)) (d : Deactivation σ) :
    strays id (ds ++ [d]) = strays id ds + (d.rule = id && d.isStray).toNat := by
  rw [strays, strays, List.countP_append, List.countP_singleton]
  cases (decide (d.rule = id) && d.isStray) <;> rfl

theorem Balanced.deactivate {ds : List (Deactivation σ)} {e e' : Engine σ} {id owner : ListenerId}
    {done : Unit} (balanced : Balanced ds e id)
    (run : Engine.deactivate owner e = some (done, e')) : Balanced (ds ++ [⟨owner, e⟩]) e' id := by
  have unchanged {e' : Engine σ} (balanced : Balanced ds e' id)
      (fine : (owner = id && (Deactivation.mk owner e).isStray) = false) :
      Balanced (ds ++ [⟨owner, e⟩]) e' id := by
    refine { balanced with ledger := ?_ }
    rw [strays_concat, fine]
    exact balanced.ledger
  obtain ⟨absent, rfl⟩ | ⟨rule, rule', sets, notActive⟩ := deactivate_sets run
  · exact unchanged balanced (by simp [Deactivation.isStray, provides, absent])
  by_cases own : id = owner
  · subst own
    have installed : e'.hasInstalled id = stands (setupsFor id e.journal ++ _) :=
      congrArg stands (setupsFor_of_sets sets)
    cases provides : e.provides id with
    | true =>
      rw [provides, if_pos rfl] at sets installed
      have fallen : e'.hasInstalled id = false := by simp [installed, stands]
      refine balanced.sets sets (absurd · notActive) (fun _ => fallen) ?_
      have next := balanced.ledger.uninstall
      simpa [strays_concat, Deactivation.isStray, provides, hasInstalled] using next
    | false =>
      -- nobody provides the action, so it was not installed and there is no entry
      rw [provides, if_neg Bool.false_ne_true] at sets installed
      have fallen : e'.hasInstalled id = false := by
        rw [installed, List.append_nil]
        exact balanced.hasInstalled_eq_false provides
      refine balanced.sets sets (absurd · notActive) (fun _ => fallen) ?_
      simpa [strays_concat, Deactivation.isStray, provides] using balanced.ledger
  · refine unchanged (balanced.spared (sets.spares own)) ?_
    simp [Ne.symm own]

/-- On every chronicle everything is balanced. -/
theorem Chronicle.balanced {ds : List (Deactivation σ)} {e : Engine σ} (chronicle : Chronicle ds e)
    (id : ListenerId) : Balanced ds e id := by
  induction chronicle with
  | create config foreign =>
    have absent := rule?_create config foreign id
    exact ⟨nofun, nofun, by simp [absent], by simp [absent], .nil⟩
  | register _ registered ih => exact ih.spared (.of_registered registered id)
  | listen name respond _ ih =>
    exact ih.spared (.of_listeners rfl rfl (rule?_addListener_external _ name respond id))
  | @addRule ds e rule _ fresh ih =>
    have rules := rule?_addListener e rule id
    by_cases new : id = (e.addListener (.rule rule)).1
    · have absent : e.rule? id = none := by
        rw [rule?, new, listener?_new]
      -- the number is new, so nothing can have been done for it
      have fallen : e.hasInstalled id = false :=
        ih.hasInstalled_eq_false (by rw [provides, absent])
      rw [if_pos new] at rules
      refine ⟨fun setup member own => ?_, fun left => ?_, fun rule' found isActive => ?_,
        fun _ _ _ => fallen, ih.ledger⟩
      · obtain ⟨_, found, _⟩ := ih.owned setup member own
        cases absent.symm.trans found
      · cases fallen.symm.trans left
      · cases rules.symm.trans found
        cases fresh.symm.trans isActive
    · rw [if_neg new] at rules
      exact ih.spared (.of_listeners rfl rfl rules)
  | minor _ minor ih => exact ih.spared (.of_minor minor id)
  | resubscribe t _ ih => exact ih.spared (.of_listeners rfl rfl rfl)
  | activate _ begins ih => exact ih.activate begins
  | deactivate _ run ih => exact ih.deactivate run

/-- A deactivation is never stray if the rule is active, and always if it is inactive. -/
structure Deactivation.Judged (d : Deactivation σ) : Prop where
  active : ∀ rule, d.moment.rule? d.rule = some rule → rule.state = .active → d.isStray = false
  inactive : ∀ rule, d.moment.rule? d.rule = some rule → rule.state = .inactive →
    d.isStray = d.moment.provides d.rule

theorem Chronicle.judged {ds : List (Deactivation σ)} {e : Engine σ} (chronicle : Chronicle ds e) :
    ∀ d ∈ ds, d.Judged := by
  induction chronicle with
  | create _ _ => nofun
  | register _ _ ih | listen _ _ _ ih | addRule _ _ ih | minor _ _ ih | resubscribe _ _ ih
  | activate _ _ ih => exact ih
  | @deactivate ds e _ id _ before _ ih =>
    refine List.forall_mem_append.2 ⟨ih, List.forall_mem_singleton.2 ?_⟩
    have balanced := before.balanced id
    constructor
    · intro rule found active
      simp [Deactivation.isStray, balanced.active rule found active]
    · intro rule found inactive
      simp [Deactivation.isStray, balanced.inactive rule found inactive]

/-! ## All rules together -/

/-- Setups are done for one rule each. -/
theorem countP_eq_sum (p : Setup → Bool) (made : List Setup) {owners : Finset ListenerId}
    (all : ∀ setup ∈ made, setup.owner ∈ owners) :
    made.countP p = ∑ id ∈ owners, made.countP fun setup => setup.owner = id && p setup := by
  induction made with
  | nil => simp
  | cons setup made ih =>
    obtain ⟨first, rest⟩ := List.forall_mem_cons.1 all
    simp only [List.countP_cons, Finset.sum_add_distrib, ih rest]
    cases p setup <;> simp [Finset.sum_ite_eq, first]

/-- How often this was done to an action for one rule. -/
def setupCountFor (id : ListenerId) (action : Ref) (kind : SetupKind) (journal : List Event) :
    Nat :=
  (setups journal).countP fun setup =>
    setup.owner = id && (setup.action = action ∧ setup.kind = kind)

theorem Balanced.setupCountFor_eq {ds : List (Deactivation σ)} {e : Engine σ} {id : ListenerId}
    (balanced : Balanced ds e id) {rule : Rule} (found : e.rule? id = some rule)
    (kind : SetupKind) :
    setupCountFor id rule.actionRef kind e.journal = (setupsFor id e.journal).count kind := by
  rw [setupCountFor, setupsFor, List.count, List.countP_map, List.countP_filter]
  refine List.countP_congr fun setup member => ?_
  have action : setup.owner = id → setup.action = rule.actionRef := by
    intro own
    obtain ⟨_, found', same⟩ := balanced.owned setup member own
    cases found.symm.trans found'
    exact same.symm
  simp only [Bool.and_eq_true, decide_eq_true_eq, Function.comp_apply, beq_iff_eq]
  tauto

theorem Balanced.setupCountFor_of_ne {ds : List (Deactivation σ)} {e : Engine σ} {id : ListenerId}
    (balanced : Balanced ds e id) {action : Ref}
    (other : ∀ rule, e.rule? id = some rule → rule.actionRef ≠ action) (kind : SetupKind) :
    setupCountFor id action kind e.journal = 0 := by
  rw [setupCountFor, List.countP_eq_zero]
  intro setup member
  simp only [Bool.and_eq_true, decide_eq_true_eq]
  rintro ⟨own, rfl, -⟩
  obtain ⟨rule, found, same⟩ := balanced.owned setup member own
  exact other rule found same

/-- As long as no deactivation is stray, the action of an active rule has been installed more often
than uninstalled, whatever other rules share it. -/
theorem Chronicle.uninstalled_lt_installed {ds : List (Deactivation σ)} {e : Engine σ}
    (chronicle : Chronicle ds e) (fine : ∀ d ∈ ds, d.isStray = false) {id : ListenerId}
    {rule : Rule} (found : e.rule? id = some rule) (active : rule.state = .active) :
    setupCount rule.actionRef .uninstalled e.journal <
      setupCount rule.actionRef .installed e.journal := by
  have none (id : ListenerId) : strays id ds = 0 := by
    rw [strays, List.countP_eq_zero]
    intro d member
    simp [fine d member]
  have le (id : ListenerId) : setupCountFor id rule.actionRef .uninstalled e.journal ≤
      setupCountFor id rule.actionRef .installed e.journal := by
    have balanced := chronicle.balanced id
    by_cases shares : ∃ other, e.rule? id = some other ∧ other.actionRef = rule.actionRef
    · obtain ⟨other, found, same⟩ := shares
      have balance := balanced.ledger.balance
      rw [← same, balanced.setupCountFor_eq found, balanced.setupCountFor_eq found]
      rw [none id] at balance
      omega
    · have other := fun rule found same => shares ⟨rule, found, same⟩
      rw [balanced.setupCountFor_of_ne other]
      exact Nat.zero_le _
  have lt : setupCountFor id rule.actionRef .uninstalled e.journal <
      setupCountFor id rule.actionRef .installed e.journal := by
    have balanced := chronicle.balanced id
    have balance := balanced.ledger.balance
    have stood : stands (setupsFor id e.journal) = true := balanced.active rule found active
    rw [balanced.setupCountFor_eq found, balanced.setupCountFor_eq found]
    rw [none id, stood, Bool.toNat_true] at balance
    omega
  -- every rule has its action installed at least as often as uninstalled, and this one more often
  have listed : ∀ setup ∈ setups e.journal,
      setup.owner ∈ insert id ((setups e.journal).map Setup.owner).toFinset := by
    intro setup member
    exact Finset.mem_insert_of_mem (List.mem_toFinset.2 (List.mem_map_of_mem member))
  rw [setupCount, setupCount, countP_eq_sum _ _ listed, countP_eq_sum _ _ listed]
  exact Finset.sum_lt_sum (fun id _ => le id) ⟨id, Finset.mem_insert_self _ _, lt⟩

/-! ## Host applications -/

/-- The engines of host applications that do as they please with providers, rules, and any books. -/
inductive Managed : Engine σ → Prop where
  | create (config : Config) (foreign : σ) : Managed (create config foreign)
  | register {e e' : Engine σ} {device : Device σ} : Managed e → e.register device = .ok e' →
    Managed e'
  | listen {e : Engine σ} (name : String)
    (respond : String → Program σ (Except ScriptError Unit)) : Managed e →
    Managed (e.addListener (.external name respond)).2
  | addRule {e : Engine σ} {rule : Rule} : Managed e → rule.IsFresh →
    Managed (e.addListener (.rule rule)).2
  | program {e e' : Engine σ} {α : Type} {depth : Nat} {program : Program σ α} {a : α} : Managed e →
    runProgram (handle depth) program e = some (a, e') → Managed e'
  | read {e e' : Engine σ} {signal : Ref} {outcome : Outcome Value} : Managed e →
    read signal e = some (outcome, e') → Managed e'
  | perform {e e' : Engine σ} {depth : Nat} {action : Ref} {values : List Value}
    {outcome : Outcome Unit} : Managed e →
    perform (handle depth) action values e = some (outcome, e') → Managed e'
  | use {e e' : Engine σ} {book book' : Book} : Managed e → book.Use e book' e' → Managed e'

theorem persistent_chronicle : Persistent fun e : Engine σ => ∃ ds, Chronicle ds e where
  change := by
    rintro e e' ⟨ds, chronicle⟩ change
    cases change with
    | minor minor => exact ⟨ds, chronicle.minor minor⟩
    | subscribe _ _ | unsubscribe _ _ => exact ⟨ds, chronicle.resubscribe _⟩
    | activate begins => exact ⟨ds, chronicle.activate begins⟩
    | deactivate run => exact ⟨_, chronicle.deactivate run⟩

/-- Whatever host applications do is one change after another. -/
theorem Managed.chronicle {e : Engine σ} (managed : Managed e) : ∃ ds, Chronicle ds e := by
  have persistent := persistent_chronicle (σ := σ)
  have takesIn {e : Engine σ} {rule : Rule} : (∃ ds, Chronicle ds e) → rule.IsFresh →
      ∃ ds, Chronicle ds (e.addListener (.rule rule)).2 :=
    fun ⟨ds, chronicle⟩ fresh => ⟨ds, chronicle.addRule fresh.inactive⟩
  induction managed with
  | create config foreign => exact ⟨[], .create config foreign⟩
  | register _ registered ih =>
    obtain ⟨ds, chronicle⟩ := ih
    exact ⟨ds, chronicle.register registered⟩
  | listen name respond _ ih =>
    obtain ⟨ds, chronicle⟩ := ih
    exact ⟨ds, chronicle.listen name respond⟩
  | addRule _ fresh ih => exact takesIn ih fresh
  | program _ ran ih => exact persistent.runProgram (persistent.handle _) _ _ _ _ ih ran
  | read _ ran ih => exact persistent.read _ _ _ _ ih ran
  | perform _ ran ih => exact persistent.perform (persistent.handle _) _ _ _ _ _ ih ran
  | use _ use ih => exact maintains_use persistent.handle takesIn ih use

/-- Until the first stray deactivation of a rule its action is installed and uninstalled by turns.
What is uninstalled otherwise is uninstalled by stray deactivations, and these are never of active
rules. -/
theorem setups_balanced {e : Engine σ} (managed : Managed e) :
    (∃ ds, Chronicle ds e) ∧ ∀ ds, Chronicle ds e →
      (∀ d ∈ ds, d.Judged) ∧ (∀ id, Balanced ds e id) ∧
      ((∀ d ∈ ds, d.isStray = false) → ∀ id rule, e.rule? id = some rule → rule.state = .active →
        setupCount rule.actionRef .uninstalled e.journal <
          setupCount rule.actionRef .installed e.journal) := by
  refine ⟨managed.chronicle, fun ds chronicle => ⟨chronicle.judged, chronicle.balanced, ?_⟩⟩
  exact fun fine _ _ found active => chronicle.uninstalled_lt_installed fine found active

/-! ## A lamp with two rules -/

/-- Dim the lamp when somebody says so. -/
def plainDimming : Rule :=
  { dimming with
    condition := .signal
      ⟨⟨"Signals.Dim", ⟨1⟩⟩, { name := "Signals.Dim", display := "Dim", result := .number }⟩ }

/-- A lamp with two rules for the same. -/
def dimmable : Engine Nat :=
  { create {} 0 with
    devices := [lamp], listeners := [.rule plainDimming, .rule plainDimming] }

/-- Activate the first rule, and deactivate the second, which was never activated, twice. -/
def meddling : Program Nat Unit :=
  .request (.activate ⟨1⟩) fun _ => .request (.deactivate ⟨2⟩) fun _ =>
    .request (.deactivate ⟨2⟩) fun _ => .finish ()

def meddled : Engine Nat :=
  ((runProgram (handle 3) meddling dimmable).map Prod.snd).getD dimmable

theorem managed_meddled : Managed meddled := by
  have new : lamp.name ∉ (create {} 0).providerNames := by
    simp [providerNames, sortTexts, create, lamp, Globals.providerName, Diagnostics.providerName]
  have fresh : plainDimming.IsFresh := ⟨rfl, rfl⟩
  have managed : Managed dimmable :=
    (((Managed.create {} 0).register (if_neg new)).addRule fresh).addRule fresh
  unfold meddled
  cases ran : runProgram (handle 3) meddling dimmable with
  | none => exact managed
  | some answer => exact managed.program ran

theorem setupsFor_meddled : setupsFor ⟨1⟩ meddled.journal = [.installed] ∧
    setupsFor ⟨2⟩ meddled.journal = [.uninstalled, .uninstalled] := by
  decide +kernel

/-- What the first rule has installed is uninstalled twice over for the second. -/
theorem setups_balanced_of_meddled :
    (meddled.rule? ⟨1⟩).any (·.state = .active) ∧
      setupCount ⟨"Lamp.Dim", ⟨1⟩⟩ .installed meddled.journal = 1 ∧
      setupCount ⟨"Lamp.Dim", ⟨1⟩⟩ .uninstalled meddled.journal = 2 ∧
      ∃ ds, Chronicle ds meddled ∧ strays ⟨1⟩ ds = 0 ∧ strays ⟨2⟩ ds = 2 := by
  obtain ⟨⟨ds, chronicle⟩, all⟩ := setups_balanced managed_meddled
  obtain ⟨_, balanced, _⟩ := all ds chronicle
  have first := (balanced ⟨1⟩).ledger.balance
  have second := (balanced ⟨2⟩).ledger.balance
  rw [setupsFor_meddled.1] at first
  rw [setupsFor_meddled.2] at second
  refine ⟨by decide +kernel, by decide +kernel, by decide +kernel, ds, chronicle, ?_, ?_⟩
  · simpa [stands] using first.symm
  · simpa [stands] using second.symm

/-- Not all that is uninstalled for a rule has been installed for it. -/
theorem not_setups_alternate : ¬ ∀ e : Engine Nat, Managed e → ∀ id,
    TakeTurns (setupsFor id e.journal) := by
  intro all
  have turns := all meddled managed_meddled ⟨2⟩
  rw [setupsFor_meddled.2, TakeTurns] at turns
  simp at turns

end Engine

end SignalRules
