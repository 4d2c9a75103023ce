import SignalRules.Proofs.Freshness
import SignalRules.Proofs.Invariants
import SignalRules.Proofs.Refusals

/-! # Edges

A rule tries its action when its condition turns true, and again as long as the action is put off.
When that is follows from what its checks have found since it was activated, however conditions and
actions turned out, as long as the action does not call the rule itself back.
-/

namespace SignalRules

/-- What the check of a rule finds: whether the condition is true, and what comes of the action if
it is tried. -/
structure Finding where
  truth : Outcome Bool
  attempt : Option (Outcome Expr.Completion)

/-- After these findings, the latest of them first, the action is due once the condition is true.
When the condition last had a value it was false, or the action was put off. -/
def Armed (findings : List Finding) : Prop :=
  ∀ finding, findings.find? (·.truth.isReady) = some finding →
    finding.truth = .ready false ∨ ∃ reason, finding.attempt = some (.interrupted reason)

theorem armed_cons_of_ready {finding : Finding} (isReady : finding.truth.isReady)
    (findings : List Finding) : Armed (finding :: findings) ↔
      finding.truth = .ready false ∨ ∃ reason, finding.attempt = some (.interrupted reason) := by
  simp [Armed, isReady]

theorem armed_cons_of_not_ready {finding : Finding} (notReady : finding.truth.isReady = false)
    (findings : List Finding) : Armed (finding :: findings) ↔ Armed findings := by
  simp [Armed, notReady]

/-- What a finding makes of a rule; only active rules change. An error of the action breaks the rule
unless the failure of another listener was counted meanwhile. -/
def Rule.after (rule : Rule) (counted : Prop) [Decidable counted] (finding : Finding) : Rule :=
  if rule.state = .active then
    match finding.truth, finding.attempt with
    | .interrupted _, _ => rule
    | .failed error, _ => { rule with state := .failed, error := some error.intoRuntime }
    | .ready holds, none => { rule with held := holds }
    | .ready _, some (.ready .done) => { rule with held := true }
    | .ready _, some (.ready .doneOnce) => { rule with state := .completed, held := true }
    | .ready _, some (.interrupted _) => { rule with held := false }
    | .ready _, some (.failed error) =>
      if counted then { rule with held := true }
      else { rule with state := .failed, held := true, error := some error.intoRuntime }
  else rule

/-- A rule that is active after a finding was active before. -/
theorem Rule.active_of_after {rule : Rule} {counted : Prop} [Decidable counted] {finding : Finding}
    (active : (rule.after counted finding).state = .active) : rule.state = .active := by
  by_cases was : rule.state = .active
  · exact was
  · rwa [Rule.after, if_neg was] at active

/-- Whether an active rule is armed shows in what it holds its condition to be. -/
theorem armed_cons_iff {rule : Rule} {counted : Prop} [Decidable counted] {finding : Finding}
    {findings : List Finding} (before : Armed findings ↔ rule.held = false)
    (attempted : finding.attempt.isSome → finding.truth = .ready true)
    (active : (rule.after counted finding).state = .active) :
    Armed (finding :: findings) ↔ (rule.after counted finding).held = false := by
  have was := Rule.active_of_after active
  obtain ⟨truth, attempt⟩ := finding
  rw [Rule.after, if_pos was] at active ⊢
  cases truth with
  | interrupted _ => rw [armed_cons_of_not_ready rfl, before]
  | failed _ => cases active
  | ready holds =>
    rw [armed_cons_of_ready rfl]
    cases attempt with
    | none => simp
    | some outcome =>
      obtain rfl : holds = true := by simpa using attempted rfl
      cases outcome with
      | interrupted _ => simp
      | ready completion =>
        cases completion with
        | done => simp
        | doneOnce => cases active
      | failed _ =>
        by_cases isCounted : counted
        · simp [isCounted]
        · simp [isCounted] at active

/-! ## What is counted -/

/-- No callback was refused for closing a cycle. -/
def NoCycle (events : List Event) : Prop :=
  ∀ signal chain, .circular signal chain ∉ refusals events

theorem noCycle_append {first rest : List Event} :
    NoCycle (first ++ rest) ↔ NoCycle first ∧ NoCycle rest := by
  simp only [NoCycle, refusals_append, List.mem_append, not_or, forall_and]

/-- A callback that ends is counted if it has failed, unless a cycle was found. -/
theorem Dispatcher.leave_counts (d : Dispatcher) (callback : Callback)
    (result : Except ScriptError Unit) (after : List Callback) :
    d.failures ≤ (d.leave callback result).failures ∧
      (d.leave callback result).failures ≤
        d.failures + (failedCallbacks [.left callback result after]).length ∧
      (d.leave callback result).circular = d.circular ∧
      (d.circular = false → (d.leave callback result).failures =
        d.failures + (failedCallbacks [.left callback result after]).length) := by
  cases result with
  | ok _ => exact ⟨Nat.le_refl _, Nat.le_refl _, rfl, fun _ => rfl⟩
  | error _ =>
    cases circular : d.circular <;> simp [leave, failedCallbacks, Event.failure?, circular]

/-- In the course of these events the dispatcher has counted callbacks that failed, and all of them
if no cycle has come up. -/
structure Counted (events : List Event) (d d' : Dispatcher) : Prop where
  le : d.failures ≤ d'.failures
  bound : d'.failures ≤ d.failures + (failedCallbacks events).length
  quiet : NoCycle events → d.circular = false → d'.circular = false
  calm : NoCycle events → d.Calm → d'.Calm
  all : NoCycle events → d.Calm → d'.failures = d.failures + (failedCallbacks events).length

namespace Counted

variable {d d' : Dispatcher} {events : List Event}

theorem of_apart (d : Dispatcher) (apart : ∀ event ∈ events, event.isApart) :
    Counted events d d where
  le := Nat.le_refl _
  bound := Nat.le_add_right _ _
  quiet _ same := same
  calm _ same := same
  all _ _ := by rw [failedCallbacks_of_isApart apart, List.length_nil, Nat.add_zero]

theorem trans {d₁ : Dispatcher} {first rest : List Event} (counted : Counted first d d₁)
    (counted' : Counted rest d₁ d') : Counted (first ++ rest) d d' where
  le := Nat.le_trans counted.le counted'.le
  bound := by
    have bound := counted.bound
    have bound' := counted'.bound
    rw [failedCallbacks_append, List.length_append]
    omega
  quiet noCycle same := by
    obtain ⟨noCycle, noCycle'⟩ := noCycle_append.1 noCycle
    exact counted'.quiet noCycle' (counted.quiet noCycle same)
  calm noCycle same := by
    obtain ⟨noCycle, noCycle'⟩ := noCycle_append.1 noCycle
    exact counted'.calm noCycle' (counted.calm noCycle same)
  all noCycle same := by
    obtain ⟨noCycle, noCycle'⟩ := noCycle_append.1 noCycle
    have all := counted.all noCycle same
    have all' := counted'.all noCycle' (counted.calm noCycle same)
    rw [failedCallbacks_append, List.length_append]
    omega

theorem refused {callback : Callback} {error : DispatchError}
    (verdict : (d.enter callback).2 = .error error) :
    Counted [.refused callback error] d (d.enter callback).1 := by
  have same := Dispatcher.failures_enter d callback
  have circular (noCycle : NoCycle [.refused callback error]) (calm : d.Calm) :
      (d.enter callback).1.circular = false := by
    rcases Dispatcher.enter_of_error verdict with circular | ⟨_, _, same⟩
    · cases error with
      | circular signal chain => exact absurd (List.mem_singleton_self _) (noCycle signal chain)
      | full _ _ => cases circular
    · rw [same]
      exact calm.refresh
  exact
    { le := Nat.le_of_eq same.symm
      bound := Nat.le_of_eq same
      quiet := fun noCycle quiet => circular noCycle (.inr quiet)
      calm := fun noCycle calm => .inr (circular noCycle calm)
      all := fun _ _ => same }

theorem taken {callback : Callback} {result : Except ScriptError Unit}
    (verdict : (d.enter callback).2 = .ok ()) (counted : Counted events (d.enter callback).1 d')
    (before after : List Callback) :
    Counted ([.entered callback before] ++ (events ++ [.left callback result after])) d
      (d'.leave callback result) := by
  obtain ⟨le, bound, quiet, _, all⟩ := counted
  rw [Dispatcher.failures_enter] at le bound all
  obtain ⟨le', bound', same, all'⟩ := d'.leave_counts callback result after
  have failed : failedCallbacks ([.entered callback before] ++
      (events ++ [.left callback result after])) =
        failedCallbacks events ++ failedCallbacks [.left callback result after] := by
    rw [failedCallbacks_append, failedCallbacks_append]
    rfl
  have circular (noCycle : NoCycle ([.entered callback before] ++
      (events ++ [.left callback result after]))) (calm : d.Calm) :
      NoCycle events ∧ (d.enter callback).1.circular = false ∧ d'.circular = false := by
    simp only [noCycle_append] at noCycle
    have before := calm.enter_of_ok verdict
    exact ⟨noCycle.2.1, before, quiet noCycle.2.1 before⟩
  constructor
  · omega
  · rw [failed, List.length_append]
    omega
  · intro noCycle calm
    exact same.trans (circular noCycle (.inr calm)).2.2
  · intro noCycle calm
    exact .inr (same.trans (circular noCycle calm).2.2)
  · intro noCycle calm
    obtain ⟨noCycle, before, during⟩ := circular noCycle calm
    have all := all noCycle (.inr before)
    have all' := all' during
    rw [failed, List.length_append]
    omega

/-- The count has moved only if a callback has failed, and without a cycle also if one has. -/
theorem failed_of_moved (counted : Counted events d d') (moved : d'.failures ≠ d.failures) :
    failedCallbacks events ≠ [] := by
  intro none
  have le := counted.le
  have bound := counted.bound
  simp only [none, List.length_nil] at bound
  omega

theorem moved_iff (counted : Counted events d d') (noCycle : NoCycle events) (calm : d.Calm) :
    d'.failures ≠ d.failures ↔ failedCallbacks events ≠ [] := by
  rw [counted.all noCycle calm, ne_eq, Nat.add_eq_left, List.length_eq_zero_iff]

end Counted

/-! ## What is left alone -/

theorem Event.attempt?_of_not_isApart {event : Event} (notApart : event.isApart = false)
    (id : ListenerId) : event.attempt? id = none := by
  cases event <;> first | rfl | cases notApart

namespace Engine

variable {σ : Type} {e e' : Engine σ} {id : ListenerId} {rule : Rule}

theorem attempts_of_aside (aside : Aside e e') (id : ListenerId) :
    attempts id e'.journal = attempts id e.journal := by
  obtain ⟨_, events, asides, rfl⟩ := aside
  exact attempts_append_of_none
    (fun event member => Event.attempt?_of_isAside (asides event member) id) e.journal

theorem attempts_fired (e : Engine σ) (id : ListenerId) (outcome : Outcome Expr.Completion) :
    attempts id (e.note (.fired id outcome)).journal = attempts id e.journal ++ [outcome] := by
  rw [note, attempts_append]
  simp [attempts, Event.attempt?]

/-- The rule is still this one, and no more has come of its action. -/
structure Untouched (id : ListenerId) (rule : Rule) (tried : List (Outcome Expr.Completion))
    (e : Engine σ) : Prop where
  found : e.rule? id = some rule
  tried : attempts id e.journal = tried

theorem Untouched.of_journal {tried : List (Outcome Expr.Completion)} {events : List Event}
    (untouched : Untouched id rule tried e) (listeners : e'.listeners = e.listeners)
    (journal : e'.journal = e.journal ++ events)
    (others : ∀ event ∈ events, event.attempt? id = none) : Untouched id rule tried e' where
  found := by
    have found := untouched.found
    unfold rule? listener? at found ⊢
    rwa [listeners]
  tried := by
    rw [journal, attempts_append_of_none others]
    exact untouched.tried

/-- Runs that do not reach a rule leave it alone. -/
theorem Untouched.invariant (id : ListenerId) (rule : Rule)
    (tried : List (Outcome Expr.Completion)) :
    Invariant (· ≠ id) (fun _ => True) (Untouched (σ := σ) id rule tried) where
  aside untouched aside := by
    obtain ⟨_, events, asides, rfl⟩ := aside
    exact untouched.of_journal rfl rfl fun event member =>
      Event.attempt?_of_isAside (asides event member) id
  rewired untouched rewired := by
    obtain ⟨_, _, events, _, setups, rfl⟩ := rewired
    exact untouched.of_journal rfl rfl fun event member =>
      Event.attempt?_of_isSetup (setups event member) id
  dispatched untouched notApart := by
    refine untouched.of_journal rfl rfl fun event member => ?_
    rw [List.mem_singleton.1 member]
    exact Event.attempt?_of_not_isApart notApart id
  advanced untouched := ⟨untouched.found, untouched.tried⟩
  modified untouched other _ := by
    constructor
    · rw [rule?_modifyRule_of_ne _ (Ne.symm other)]
      exact untouched.found
    · rw [journal_modifyRule]
      exact untouched.tried
  fired untouched other := by
    refine untouched.of_journal rfl rfl fun event member => ?_
    rw [List.mem_singleton.1 member]
    exact if_neg other
  set untouched _ := ⟨untouched.found, untouched.tried⟩
  action _ _ := trivial
  written _ _ _ _ called := ⟨called.found, called.tried⟩

/-! ## One check -/

/-- What the check of a rule has found: the value that the condition had, and an entry in the
journal if the action was tried. -/
structure Finds (id : ListenerId) (rule : Rule) (e e' : Engine σ) (finding : Finding) : Prop where
  evaluated : ∃ value e₁, rule.condition.evaluate read e = some (value, e₁) ∧
    finding.truth = value.andThen fun v => .ofExcept v.isTrue
  tried : attempts id e'.journal = attempts id e.journal ++ finding.attempt.toList

theorem Judged.finds {truth : Outcome Bool} {attempt : Option (Outcome Expr.Completion)}
    {e₁ : Engine σ} (judged : Judged e id rule truth e₁)
    (tried : attempts id e'.journal = attempts id e₁.journal ++ attempt.toList) :
    Finds id rule e e' ⟨truth, attempt⟩ := by
  obtain ⟨value, evaluated, truth_eq⟩ := judged.evaluated
  rw [attempts_of_aside judged.aside] at tried
  exact ⟨⟨value, e₁, evaluated, truth_eq⟩, tried⟩

/-- A rule that was held to be true takes the outcome of its action. -/
theorem rule?_conclude {before : Nat} {outcome : Outcome Expr.Completion}
    {result : Except ScriptError Unit} (active : rule.state = .active)
    (found : e.rule? id = some { rule with held := true })
    (concluded : e.conclude id before outcome = (result, e')) :
    e'.rule? id =
      some (rule.after (e'.dispatcher.failures ≠ before) ⟨.ready true, some outcome⟩) := by
  rw [dispatcher_conclude concluded, Rule.after, if_pos active]
  cases outcome with
  | ready completion =>
    cases completion with
    | done =>
      cases concluded
      exact found
    | doneOnce =>
      cases concluded
      exact rule?_modifyRule_self found _
  | interrupted _ =>
    cases concluded
    exact rule?_modifyRule_self found _
  | failed error =>
    rcases conclude_failed concluded with ⟨counted, _, rfl⟩ | ⟨uncounted, _, rfl⟩
    · simp only [if_pos counted]
      exact found
    · simp only [uncounted, ne_eq, not_true_eq_false, if_false]
      exact rule?_modifyRule_self found _

/-- The action of a rule was tried, and did not call the rule back. -/
theorem rule?_attempt {depth : Nat} {e₁ e₂ : Engine σ} {outcome : Outcome Expr.Completion}
    {result : Except ScriptError Unit} (judged : Judged e id rule (.ready true) e₁)
    (performed : performCall (handleWithin (· ≠ id) depth) rule.action (e₁.hold id true) =
      some (outcome, e₂))
    (concluded : (e₂.note (.fired id outcome)).conclude id e.dispatcher.failures outcome =
      (result, e')) :
    attempts id e'.journal = attempts id e₁.journal ++ [outcome] ∧ e'.rule? id =
      some (rule.after (e'.dispatcher.failures ≠ e.dispatcher.failures)
        ⟨.ready true, some outcome⟩) := by
  have held : Untouched id { rule with held := true } (attempts id e₁.journal)
      (e₁.hold id true) := by
    refine ⟨rule?_modifyRule_self judged.still_found _, ?_⟩
    rw [hold, journal_modifyRule]
  have untouched := (Untouched.invariant id _ _).performCall
    ((Untouched.invariant id _ _).handleWithin depth) trivial _ _ _ held performed
  have found : (e₂.note (.fired id outcome)).rule? id = some { rule with held := true } :=
    untouched.found
  refine ⟨?_, rule?_conclude judged.active found concluded⟩
  obtain ⟨_, _, rfl⟩ := settled_of_concluded concluded
  rw [journal_modifyRule, attempts_fired, untouched.tried]

/-- What a check finds says whether the action is tried, and what becomes of the rule. -/
theorem check_finds {depth : Nat} {result : Except ScriptError Unit}
    (found : e.rule? id = some rule)
    (run : check (handleWithin (· ≠ id) depth) id e = some (result, e')) :
    ∃ finding, Finds id rule e e' finding ∧
      (finding.attempt.isSome ↔
        rule.state = .active ∧ finding.truth = .ready true ∧ rule.held = false) ∧
      e'.rule? id =
        some (rule.after (e'.dispatcher.failures ≠ e.dispatcher.failures) finding) := by
  obtain ⟨resting, _, rfl⟩ | ⟨rule', truth, e₁, judged, rest⟩ := check_cases run
  · obtain ⟨value, e₁, evaluated, _⟩ := evaluate_run rule.condition e'
    have inactive := resting rule found
    refine ⟨⟨_, none⟩, ⟨⟨value, e₁, evaluated, rfl⟩, by simp⟩, by simp [inactive], ?_⟩
    rw [Rule.after, if_neg inactive, found]
  · cases judged.found.symm.trans found
    have active := judged.active
    have stillFound := judged.still_found
    cases truth with
    | interrupted reason =>
      obtain ⟨_, rfl⟩ := rest
      refine ⟨⟨.interrupted reason, none⟩, judged.finds (by simp), by simp, ?_⟩
      rw [Rule.after, if_pos active, stillFound]
    | failed error =>
      obtain ⟨_, rfl⟩ := rest
      refine ⟨⟨.failed error, none⟩, judged.finds (by simp [breakDown]), by simp, ?_⟩
      rw [Rule.after, if_pos active, breakDown, rule?_modifyRule_self stillFound]
    | ready holds =>
      dsimp only at rest
      split at rest
      · rename_i fires
        obtain ⟨rfl, armed⟩ : holds = true ∧ rule.held = false := by simpa using fires
        obtain ⟨outcome, e₂, performed, concluded⟩ := rest
        obtain ⟨tried, after⟩ := rule?_attempt judged performed concluded
        exact ⟨⟨.ready true, some outcome⟩, judged.finds tried, by simp [active, armed], after⟩
      · rename_i unarmed
        obtain ⟨_, rfl⟩ := rest
        refine ⟨⟨.ready holds, none⟩, judged.finds (by simp [hold]), ?_, ?_⟩
        · simpa [active] using unarmed
        · rw [Rule.after, if_pos active, hold, rule?_modifyRule_self stillFound]

/-- What the dispatcher has counted is borne out by the journal. -/
def Tallied (e e' : Engine σ) : Prop :=
  ∃ events, e'.journal = e.journal ++ events ∧ Counted events e.dispatcher e'.dispatcher

theorem closed_tallied : Closed (Tallied (σ := σ)) where
  refl e := ⟨[], by simp, .of_apart e.dispatcher (by simp)⟩
  trans := by
    rintro a b c ⟨first, journal, counted⟩ ⟨rest, journal', counted'⟩
    exact ⟨first ++ rest, by rw [journal', journal, List.append_assoc], counted.trans counted'⟩
  apart := by
    intro a b apart
    obtain ⟨events, journal, each⟩ := apart.journal
    exact ⟨events, journal, apart.dispatcher ▸ .of_apart a.dispatcher each⟩
  refused verdict := ⟨[_], rfl, .refused verdict⟩
  taken := by
    rintro e callback result e₁ verdict ⟨events, journal, counted⟩
    refine ⟨_, ?_, .taken verdict counted (e.dispatcher.enter callback).1.pending
      (e₁.dispatcher.leave callback result).pending⟩
    rw [leave, note, journal]
    simp [takeUp, note]

theorem tallied_check {free : ListenerId → Prop} [DecidablePred free] {depth : Nat}
    {result : Except ScriptError Unit}
    (run : check (handleWithin free depth) id e = some (result, e')) : Tallied e e' :=
  closed_tallied.check (closed_tallied.handle depth) id e result e'
    (Refines.check (Refines.handleWithin depth) id e result e' run)

/-! ## Histories -/

/-- The findings of all checks of a rule since it was activated, the latest first, and the engine
that they have led to. In between anything may happen that leaves the rule as it is, and no check
has called the rule back. -/
inductive History (id : ListenerId) : List Finding → Engine σ → Prop where
  | start {e : Engine σ} {rule : Rule} : e.rule? id = some rule → rule.state = .inactive →
    History id [] (e.start id)
  | meanwhile {findings : List Finding} {e e' : Engine σ} :
    History id findings e → e'.rule? id = e.rule? id → History id findings e'
  | check {findings : List Finding} {finding : Finding} {e e' : Engine σ} {rule : Rule}
      {depth : Nat} {result : Except ScriptError Unit} :
    History id findings e → e.rule? id = some rule →
      check (handleWithin (· ≠ id) depth) id e = some (result, e') →
        Finds id rule e e' finding → History id (finding :: findings) e'

theorem Finds.unique {finding finding' : Finding} (finds : Finds id rule e e' finding)
    (finds' : Finds id rule e e' finding') : finding' = finding := by
  obtain ⟨truth, attempt⟩ := finding
  obtain ⟨truth', attempt'⟩ := finding'
  obtain ⟨⟨value, e₁, evaluated, truth_eq⟩, tried⟩ := finds
  obtain ⟨⟨value', e₁', evaluated', truth_eq'⟩, tried'⟩ := finds'
  simp only at truth_eq truth_eq' tried tried'
  cases evaluated.symm.trans evaluated'
  have same := List.append_cancel_left (tried.symm.trans tried')
  have sameAttempt : attempt' = attempt := by
    cases attempt <;> cases attempt' <;> simp_all
  rw [truth_eq, truth_eq', sameAttempt]

/-- As long as a rule is active, it is armed exactly if it does not hold its condition to be
true. -/
theorem History.armed_iff {findings : List Finding} (history : History id findings e)
    (found : e.rule? id = some rule) (active : rule.state = .active) :
    Armed findings ↔ rule.held = false := by
  induction history generalizing rule with
  | start wasFound _ =>
    have started := rule?_modifyRule_self wasFound fun rule =>
      { rule with state := .active, held := false }
    cases started.symm.trans found
    simp [Armed]
  | meanwhile _ same ih => exact ih (same ▸ found) active
  | @check findings finding e e' old _ _ _ wasFound ran finds ih =>
    obtain ⟨_, finds', attempted, after⟩ := check_finds wasFound ran
    cases finds.unique finds'
    cases after.symm.trans found
    have before := ih wasFound (Rule.active_of_after active)
    exact armed_cons_iff before (fun tried => (attempted.1 tried).2.1) active

theorem History.found {findings : List Finding} (history : History id findings e) :
    ∃ rule, e.rule? id = some rule := by
  induction history with
  | start wasFound _ => exact ⟨_, rule?_modifyRule_self wasFound _⟩
  | meanwhile _ same ih => exact same ▸ ih
  | check _ wasFound ran _ =>
    obtain ⟨_, _, _, after⟩ := check_finds wasFound ran
    exact ⟨_, after⟩

/-- To activate a rule is to check it for the first time, if it comes to that. -/
theorem History.of_activate {depth : Nat} {result : Except ScriptError Unit}
    (run : activate (handleWithin (· ≠ id) depth) id e = some (result, e')) :
    e'.rule? id = e.rule? id ∨ ∃ finding, History id [finding] e' := by
  cases activation run with
  | idle => exact .inl rfl
  | notInstalled _ _ installs =>
    have rewired : Rewired id e e' := .install installs
    exact .inl (congrFun rewired.rule?_eq id)
  | notSubscribed _ _ installs subscribes detaches =>
    have attached := (Rewired.install installs).trans (Rewired.subscribeAll subscribes).1
    exact .inl (congrFun (attached.trans (.detach detaches)).rule?_eq id)
  | @listening _ e₂ _ _ _ found inactive installs subscribes checked =>
    have attached := (Rewired.install installs).trans (Rewired.subscribeAll subscribes).1
    have found₂ := (congrFun attached.rule?_eq id).trans found
    have started := rule?_modifyRule_self found₂ fun rule =>
      { rule with state := .active, held := false }
    obtain ⟨finding, finds, _⟩ := check_finds started checked
    exact .inr ⟨finding, .check (.start found₂ inactive) started checked finds⟩

/-! ## Edges -/

/-- What the check of a rule does in view of what earlier ones have found. -/
structure Detects (id : ListenerId) (rule : Rule) (earlier : List Finding) (e e' : Engine σ)
    (finding : Finding) : Prop where
  found : e.rule? id = some rule
  finds : Finds id rule e e' finding
  history : History id (finding :: earlier) e'
  /-- The action is tried on an edge. -/
  attempted : finding.attempt.isSome ↔
    rule.state = .active ∧ finding.truth = .ready true ∧ Armed earlier
  settled : e'.rule? id =
    some (rule.after (e'.dispatcher.failures ≠ e.dispatcher.failures) finding)
  /-- The action is spared its error if the callback of another listener has failed. This is certain
  as long as no cycle comes up. -/
  downstream : ∃ events, e'.journal = e.journal ++ events ∧
    (e'.dispatcher.failures ≠ e.dispatcher.failures → failedCallbacks events ≠ []) ∧
    (NoCycle events → e.dispatcher.Calm →
      e'.rule? id = some (rule.after (failedCallbacks events ≠ []) finding))

/-- However conditions and actions turn out, a rule tries its action on edges and nowhere else. -/
theorem check_detects_edges {earlier : List Finding} (history : History id earlier e) {depth : Nat}
    {result : Except ScriptError Unit}
    (run : check (handleWithin (· ≠ id) depth) id e = some (result, e')) :
    ∃ rule finding, Detects id rule earlier e e' finding := by
  obtain ⟨rule, found⟩ := history.found
  obtain ⟨finding, finds, attempted, settled⟩ := check_finds found run
  obtain ⟨events, journal, counted⟩ := tallied_check run
  refine ⟨rule, finding, found, finds, .check history found run finds, ?_, settled,
    events, journal, ?_, ?_⟩
  · rw [attempted]
    constructor
    · rintro ⟨active, truth, unheld⟩
      exact ⟨active, truth, (history.armed_iff found active).2 unheld⟩
    · rintro ⟨active, truth, armed⟩
      exact ⟨active, truth, (history.armed_iff found active).1 armed⟩
  · exact counted.failed_of_moved
  · intro noCycle calm
    rw [settled]
    simp only [counted.moved_iff noCycle calm]

/-- The first rule sets A when Go is set, and another one, active already, follows. -/
def goThen (record : RuleRecord) : Engine Unit :=
  create {} ()
  |>.withRule ⟨1⟩ { condition := "(sig Signals.Go)", action := "(act Signals.Set 'A' 100)" }
  |>.withRule ⟨1⟩ record
  |>.afterAll (fun _ => True) 9 [.activate ⟨2⟩]

/-- The first rule is activated, and checked again when Go has been set. These are the engines
before and after that check, with its result in between. -/
def checkedOnGo (e : Engine Unit) :
    Option (Engine Unit × Except ScriptError Unit × Engine Unit) := do
  let (_, started) ← activate (handleWithin (· ≠ ⟨1⟩) 9) ⟨1⟩ e
  let raised := { started with globals := started.globals.put "Go" (.number (.ofInt 1)) }
  let (result, checked) ← check (handleWithin (· ≠ ⟨1⟩) 9) ⟨1⟩ raised
  return (raised, result, checked)

theorem history_of_checkedOnGo {e raised checked : Engine Unit} {result : Except ScriptError Unit}
    (run : checkedOnGo e = some (raised, result, checked))
    (inactive : (e.rule? ⟨1⟩).map Rule.state = some .inactive) (active : raised.IsActive ⟨1⟩) :
    check (handleWithin (· ≠ ⟨1⟩) 9) ⟨1⟩ raised = some (result, checked) ∧
      ∃ finding, History ⟨1⟩ [finding] raised := by
  obtain ⟨⟨_, started⟩, activated, run⟩ := Option.bind_eq_some_iff.1 run
  obtain ⟨⟨result, checked⟩, ran, finish⟩ := Option.bind_eq_some_iff.1 run
  cases finish
  refine ⟨ran, ?_⟩
  rcases History.of_activate activated with same | ⟨finding, history⟩
  · obtain ⟨rule, found, active⟩ := active
    have found : e.rule? ⟨1⟩ = some rule := same ▸ found
    rw [found, Option.map_some, active] at inactive
    cases inactive
  · exact ⟨finding, .meanwhile history rfl⟩

/-- When A is set this rule divides by zero. -/
def divider : RuleRecord :=
  { condition := "(sig Signals.A)", action := "(act Signals.Set 'B' (div (sig Signals.A) 0))" }

/-- The rule downstream fails, and the first one stays active. -/
theorem detects_edges_of_divider : ∃ e e' result rule earlier finding,
    check (handleWithin (· ≠ ⟨1⟩) 9) ⟨1⟩ e = some (result, e') ∧
      Detects (σ := Unit) ⟨1⟩ rule earlier e e' finding ∧ e'.IsActive ⟨1⟩ ∧ e'.HasFailed ⟨2⟩ := by
  have known : (checkedOnGo (goThen divider)).map (fun (raised, _, checked) =>
      (((goThen divider).rule? ⟨1⟩).map Rule.state, (raised.rule? ⟨1⟩).map Rule.state,
        (checked.rule? ⟨1⟩).map Rule.state, (checked.rule? ⟨2⟩).map Rule.state)) =
      some (some .inactive, some .active, some .active, some .failed) := by decide +kernel
  obtain ⟨⟨e, result, e'⟩, run, same⟩ := Option.map_eq_some_iff.1 known
  simp only [Prod.mk.injEq] at same
  obtain ⟨inactive, active, upstream, downstream⟩ := same
  obtain ⟨ran, _, history⟩ :=
    history_of_checkedOnGo run inactive (Option.map_eq_some_iff.1 active)
  obtain ⟨rule, finding, detects⟩ := check_detects_edges history ran
  exact ⟨e, e', result, rule, _, finding, ran, detects, Option.map_eq_some_iff.1 upstream,
    Option.map_eq_some_iff.1 downstream⟩

/-- When A is set this rule sets A again. -/
def looper : RuleRecord :=
  { condition := "(sig Signals.A)", action := "(act Signals.Set 'A' (add (sig Signals.A) 100))" }

def looperError : ScriptError :=
  .dispatch (.circular "Signals.A" ["Signals.A", "Signals.A"])

/-- A rule breaks although its action fails with the error of another listener's callback, because
this is an error of a cycle. -/
theorem not_downstream_leaves_active :
    ¬∀ (e e' : Engine Unit) (id : ListenerId) (depth : Nat) (earlier : List Finding)
      (result : Except ScriptError Unit) (events : List Event) (callback : Callback)
      (error : ScriptError), History id earlier e → e.IsActive id →
      check (handleWithin (· ≠ id) depth) id e = some (result, e') →
      attempts id events = [.failed error] → e'.journal = e.journal ++ events →
      (callback, error) ∈ failedCallbacks events → e'.IsActive id := by
  intro claimed
  have known : (checkedOnGo (goThen looper)).map (fun (raised, _, checked) =>
      ((((goThen looper).rule? ⟨1⟩).map Rule.state, (raised.rule? ⟨1⟩).map Rule.state,
          (checked.rule? ⟨1⟩).map Rule.state),
        failedCallbacks (checked.journal.drop raised.journal.length),
        attempts ⟨1⟩ (checked.journal.drop raised.journal.length))) =
      some ((some .inactive, some .active, some .failed), [(⟨"Signals.A", ⟨2⟩⟩, looperError)],
        [.failed looperError]) := by decide +kernel
  obtain ⟨⟨e, result, e'⟩, run, same⟩ := Option.map_eq_some_iff.1 known
  simp only [Prod.mk.injEq] at same
  obtain ⟨⟨inactive, active, broken⟩, failed, tried⟩ := same
  have active : e.IsActive ⟨1⟩ := Option.map_eq_some_iff.1 active
  obtain ⟨ran, _, history⟩ := history_of_checkedOnGo run inactive active
  obtain ⟨events, journal, _⟩ := tallied_check ran
  rw [journal, List.drop_left] at failed tried
  have member : (⟨"Signals.A", ⟨2⟩⟩, looperError) ∈ failedCallbacks events := by simp [failed]
  obtain ⟨rule, found, still⟩ :=
    claimed e e' ⟨1⟩ 9 _ result events _ _ history active ran tried journal member
  rw [found, Option.map_some, still] at broken
  cases broken

end Engine

end SignalRules
