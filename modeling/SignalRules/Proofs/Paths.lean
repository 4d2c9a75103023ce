import Mathlib.Data.List.Chain
import Mathlib.Data.List.Perm.Subperm
import Mathlib.Logic.Relation
import SignalRules.Proofs.Propagation
import SignalRules.Proofs.Refusals
import SignalRules.Proofs.Wiring

/-! # Paths

The rules of an engine span a graph of signals: from each signal that the condition of a rule names
there is an edge to the signal that its action writes. Whatever is pending is a path of this graph.
So without a cycle in the graph no callback is refused because of a cycle, and none at all where the
queue has room for the longest path.
-/

namespace SignalRules

namespace Engine

variable {σ : Type}

/-! ## The graph -/

/-- Some rule names the first signal in its condition and writes the second. -/
def Leads (e : Engine σ) (signal next : String) : Prop :=
  ∃ id rule, e.rule? id = some rule ∧ signal ∈ rule.condition.signalNames ∧
    rule.action.target? = some next

/-- Some rule names the signal in its condition or writes it. -/
def Mentions (e : Engine σ) (signal : String) : Prop :=
  ∃ id rule, e.rule? id = some rule ∧
    (signal ∈ rule.condition.signalNames ∨ rule.action.target? = some signal)

/-- The signals of the graph, one after the other, that are passed on a way through it. -/
structure Path (e : Engine σ) (signals : List String) : Prop where
  mentioned : ∀ signal ∈ signals, e.Mentions signal
  linked : signals.IsChain e.Leads

/-- No way through the graph leads back to where it began. -/
def Acyclic (e : Engine σ) : Prop :=
  ∀ signal, ¬Relation.TransGen e.Leads signal signal

theorem Path.nodup {e : Engine σ} (acyclic : e.Acyclic) {signals : List String}
    (path : e.Path signals) : signals.Nodup := by
  have passed : signals.IsChain (Relation.TransGen e.Leads) :=
    path.linked.imp fun _ _ => .single
  refine passed.pairwise.imp ?_
  rintro signal _ leads rfl
  exact acyclic signal leads

/-! The graph can be computed. -/

def rules (e : Engine σ) : List Rule :=
  e.listeners.filterMap fun
    | .rule rule => some rule
    | .external _ _ => none

def edges (e : Engine σ) : List (String × String) :=
  e.rules.flatMap fun rule => rule.condition.signalNames.flatMap fun signal =>
    rule.action.target?.toList.map fun next => (signal, next)

def mentioned (e : Engine σ) : List String :=
  e.rules.flatMap fun rule => rule.condition.signalNames ++ rule.action.target?.toList

theorem mem_rules {e : Engine σ} {id : ListenerId} {rule : Rule} (found : e.rule? id = some rule) :
    rule ∈ e.rules := by
  have known := listener?_eq_of_rule? found
  unfold listener? at known
  split at known
  · cases known
  · exact List.mem_filterMap.2 ⟨_, List.mem_of_getElem? known, rfl⟩

theorem Leads.mem_edges {e : Engine σ} {signal next : String} (leads : e.Leads signal next) :
    (signal, next) ∈ e.edges := by
  obtain ⟨id, rule, found, named, written⟩ := leads
  refine List.mem_flatMap.2 ⟨rule, mem_rules found, List.mem_flatMap.2 ⟨signal, named, ?_⟩⟩
  simp [written]

theorem Mentions.mem_mentioned {e : Engine σ} {signal : String} (mentions : e.Mentions signal) :
    signal ∈ e.mentioned := by
  obtain ⟨id, rule, found, named | written⟩ := mentions
  · exact List.mem_flatMap.2 ⟨rule, mem_rules found, List.mem_append_left _ named⟩
  · refine List.mem_flatMap.2 ⟨rule, mem_rules found, List.mem_append_right _ ?_⟩
    simp [written]

/-- Signals in an order in which every edge leads onwards. -/
theorem acyclic_of_rank {e : Engine σ} (rank : String → Nat)
    (grows : ∀ edge ∈ e.edges, rank edge.1 < rank edge.2) : e.Acyclic := by
  have onwards {signal next : String} (leads : Relation.TransGen e.Leads signal next) :
      rank signal < rank next := by
    induction leads with
    | single leads => exact grows _ leads.mem_edges
    | tail _ leads before => exact before.trans (grows _ leads.mem_edges)
  exact fun signal leads => Nat.lt_irrefl _ (onwards leads)

/-- No path is longer than there are signals. -/
theorem Path.length_le {e : Engine σ} (acyclic : e.Acyclic) {signals : List String}
    (path : e.Path signals) : signals.length ≤ e.mentioned.eraseDups.length := by
  refine ((path.nodup acyclic).subperm fun signal member => ?_).length_le
  exact List.mem_eraseDups.2 (path.mentioned signal member).mem_mentioned

/-! ## What is pending -/

/-- The callback is one to a rule that names the signal in its condition. -/
def Hears (e : Engine σ) (callback : Callback) : Prop :=
  ∃ rule, e.rule? callback.listener = some rule ∧ callback.signal ∈ rule.condition.signalNames

/-- Besides, the rule writes the signal of the next callback. -/
def Passes (e : Engine σ) (callback next : Callback) : Prop :=
  ∃ rule, e.rule? callback.listener = some rule ∧ callback.signal ∈ rule.condition.signalNames ∧
    rule.action.target? = some next.signal

/-- Each callback has led to the next. -/
structure Thread (e : Engine σ) (queue : List Callback) : Prop where
  heard : ∀ callback ∈ queue, e.Hears callback
  linked : queue.IsChain e.Passes

namespace Thread

variable {e : Engine σ} {queue : List Callback}

theorem nil (e : Engine σ) : e.Thread [] :=
  ⟨fun _ member => absurd member List.not_mem_nil, .nil⟩

theorem push (thread : e.Thread queue) {next : Callback} (heard : e.Hears next)
    (passes : ∀ last ∈ queue.getLast?, e.Passes last next) : e.Thread (queue ++ [next]) where
  heard := List.forall_mem_append.2 ⟨thread.heard, by simpa using heard⟩
  linked := List.isChain_append.2 ⟨thread.linked, .singleton next, by simpa using passes⟩

/-- The signals of the callbacks are a path. -/
theorem path (thread : e.Thread queue) : e.Path (queue.map Callback.signal) where
  mentioned := by
    intro signal member
    obtain ⟨callback, listed, rfl⟩ := List.mem_map.1 member
    obtain ⟨rule, found, named⟩ := thread.heard callback listed
    exact ⟨_, rule, found, .inl named⟩
  linked := by
    refine List.isChain_map_of_isChain _ ?_ thread.linked
    rintro callback next ⟨rule, found, named, written⟩
    exact ⟨_, rule, found, named, written⟩

theorem not_mem (acyclic : e.Acyclic) {callback : Callback}
    (thread : e.Thread (queue ++ [callback])) : callback ∉ queue := by
  have nodup := (thread.path.nodup acyclic).of_map
  rw [← List.concat_eq_append, List.nodup_concat] at nodup
  exact nodup.1

end Thread

/-- What has to be pending for a task to come up. -/
def Awaits (e : Engine σ) : Task → List Callback → Prop
  | .check id, queue => e.Thread queue ∧ ∀ last ∈ queue.getLast?, last.listener = id
  | .write name _, queue => ∀ id, e.Hears ⟨Globals.fullName name, id⟩ →
    e.Thread (queue ++ [⟨Globals.fullName name, id⟩])
  | .deliver callbacks, queue => ∀ callback ∈ callbacks, e.Thread (queue ++ [callback])
  | .schedule callback, queue => e.Thread (queue ++ [callback])

/-! ## What is refused -/

/-- No cycle is the reason, and there is a path that does not fit into a queue of this limit. -/
def Crowded (e : Engine σ) (limit : Nat) : DispatchError → Prop
  | .circular _ _ => False
  | .full _ _ => ∃ path, e.Path path ∧ limit < path.length

theorem Thread.crowded {e : Engine σ} (acyclic : e.Acyclic) {d : Dispatcher} {callback : Callback}
    (thread : e.Thread (d.pending ++ [callback])) {error : DispatchError}
    (refused : (d.enter callback).2 = .error error) : e.Crowded d.limit error := by
  rw [Dispatcher.enter, if_neg (thread.not_mem acyclic)] at refused
  split at refused
  · rename_i full
    cases refused
    exact ⟨_, thread.path, by simpa [Nat.lt_succ_iff] using full⟩
  · cases refused

theorem Aside.refusals_eq {e e' : Engine σ} (aside : Aside e e') :
    refusals e'.journal = refusals e.journal := by
  obtain ⟨_, events, asides, rfl⟩ := aside
  exact refusals_append_of_none (fun event member => selective_refusal? (asides event member)) _

theorem refusals_note (e : Engine σ) {event : Event} (none : event.refusal? = none) :
    refusals (e.note event).journal = refusals e.journal :=
  refusals_append_of_none (by simpa using none) _

theorem Judged.refusals_eq {e e₁ e₂ : Engine σ} {id : ListenerId} {rule : Rule}
    {truth : Outcome Bool} (judged : Judged e id rule truth e₁) {held : Bool}
    (aside : Aside (e₁.hold id held) e₂) : refusals e₂.journal = refusals e.journal := by
  rw [aside.refusals_eq, hold, journal_modifyRule, judged.aside.refusals_eq]

theorem refusals_conclude {e e' : Engine σ} {id : ListenerId} {before : Nat}
    {outcome : Outcome Expr.Completion} {result : Except ScriptError Unit}
    (concluded : (e.note (.fired id outcome)).conclude id before outcome = (result, e')) :
    refusals e'.journal = refusals e.journal := by
  obtain ⟨_, _, rfl⟩ := settled_of_concluded concluded
  rw [journal_modifyRule, refusals_note e rfl]

/-! ## Who listens -/

/-- Only rules are subscribed, and to no signals but those that their conditions name. -/
structure Wired (e : Engine σ) : Prop where
  proper : e.subscriptions.Proper
  listens : ∀ {id signal}, id ∈ e.subscriptions.listeners signal →
    ∃ rule, e.rule? id = some rule ∧ signal ∈ rule.signals

namespace Wired

variable {e e' : Engine σ}

theorem of_keeps (wired : Wired e) (keeps : Keeps e e')
    (same : e'.subscriptions = e.subscriptions) : Wired e' where
  proper := same ▸ wired.proper
  listens listed := by
    obtain ⟨rule, found, named⟩ := wired.listens (same ▸ listed)
    obtain ⟨rule', found', parts⟩ := keeps _ _ found
    exact ⟨rule', found', signals_eq_of_parts parts ▸ named⟩

theorem wires (wired : Wired e) {id : ListenerId} {rule : Rule} (found : e.rule? id = some rule)
    (wires : Wires id rule.signals e e') : Wired e' where
  proper := wires.proper wired.proper
  listens {other signal} listed := by
    rw [wires.rewired.rule?_eq]
    by_cases moved : other = id ∧ signal ∈ rule.signals
    · obtain ⟨rfl, named⟩ := moved
      exact ⟨rule, found, named⟩
    · exact wired.listens ((wires.others wired.proper moved).1 listed)

/-- Whoever is told of a signal names it. -/
theorem hears (wired : Wired e) {base : Engine σ} (kept : Keeps e base) {signal : String}
    {callback : Callback} (member : callback ∈ e.subscriptions.callbacks signal) :
    callback.signal = signal ∧ base.Hears callback := by
  obtain ⟨rfl, host, listed⟩ := Subscriptions.listens_of_mem_callbacks member
  obtain ⟨rule, found, named⟩ := wired.listens listed
  obtain ⟨rule', found', parts⟩ := kept _ _ found
  rw [← signals_eq_of_parts parts] at named
  exact ⟨rfl, rule', found', (Rule.mem_signals.1 named).2⟩

end Wired

theorem Framed.keeps {e e' : Engine σ} (framed : Framed e e') : Keeps e e' := by
  intro id rule found
  obtain ⟨rule', found', follows⟩ := framed.rules found
  obtain ⟨_, _, _, rfl⟩ := follows.parts
  exact ⟨_, found', rfl⟩

/-! ## Steps -/

/-- Between commands: the rules are some of those of `base`, they listen to what they name, no
callback is pending, and none was refused but for want of room. -/
structure Fair (base : Engine σ) (limit : Nat) (e : Engine σ) : Prop where
  among : AmongRules e
  bare : e.devices = []
  wired : Wired e
  kept : Keeps e base
  limit_eq : e.dispatcher.limit = limit
  config_eq : e.config.callbackQueueLimit = limit
  idle : e.dispatcher.pending = []
  spared : ∀ error ∈ refusals e.journal, base.Crowded limit error

/-- There are no devices, and all rules are predictable. -/
structure Plain (e : Engine σ) : Prop where
  bare : e.devices = []
  predictable : ∀ {id rule}, e.rule? id = some rule → e.Predictable rule

/-- Besides, the graph of the rules has no cycle. -/
structure Tidy (e : Engine σ) : Prop extends Plain e where
  acyclic : e.Acyclic

/-- A write of a rule is one of the signal that its action writes. -/
theorem Writing.target_eq {e e' : Engine σ} {call : Call} {name : String} {value : Value}
    (bare : e.devices = []) (writing : Writing e call name value e')
    (effect : call.binding.ref.name = Diagnostics.logAction ∨ call.target?.isSome) :
    call.target? = some (Globals.fullName name) := by
  rcases effect with logs | writes
  · rw [writing.action] at logs
    exact absurd logs (by decide)
  · unfold Call.target? at writes ⊢
    split at writes
    · rename_i text args given
      rw [if_pos writing.action, eq_text_of_argumentValues given (writing.arguments bare)]
      rfl
    · cases writes

/-- When a rule writes, the callback that came last is one to this rule, and it leads to those of
whoever names the signal that is written. -/
theorem Fair.awaits_write {base start e e₁ e₂ : Engine σ} {limit : Nat}
    (fair : Fair base limit start) (plain : base.Plain) (framed : Framed start e)
    {id : ListenerId} {rule : Rule} {truth : Outcome Bool} {name : String} {value : Value}
    (awaits : base.Awaits (.check id) e.dispatcher.pending)
    (judged : Judged e id rule truth e₁) {held : Bool}
    (writing : Writing (e₁.hold id held) rule.action name value e₂) :
    base.Awaits (.write name value) e.dispatcher.pending := by
  obtain ⟨thread, last⟩ := awaits
  intro listener heard
  refine thread.push heard fun callback isLast => ?_
  obtain ⟨rule', found', named⟩ := thread.heard callback (List.mem_of_getLast? isLast)
  obtain ⟨old, found, follows⟩ := framed.was_found judged.found
  have action : rule'.action = rule.action := by
    obtain ⟨_, same, parts⟩ := fair.kept _ _ found
    rw [last callback isLast, same] at found'
    cases found'
    rw [follows.action]
    exact action_eq_of_parts parts
  refine ⟨rule', found', named, ?_⟩
  rw [action]
  refine writing.target_eq (judged.bare_hold (framed.devices.trans fair.bare) held) ?_
  exact action ▸ (plain.predictable found').effect

/-- In the course of every task the queue is a thread, so callbacks are refused for want of room
only. -/
theorem Cascade.crowded {base start : Engine σ} {limit : Nat} (tidy : base.Tidy)
    (fair : Fair base limit start) {task : Task} {e e' : Engine σ}
    {result : Except ScriptError Unit} (cascade : Cascade task e result e') :
    Framed start e → base.Awaits task e.dispatcher.pending →
      (∀ error ∈ refusals e.journal, base.Crowded limit error) →
        ∀ error ∈ refusals e'.journal, base.Crowded limit error := by
  induction cascade with
  | asleep | nil => exact fun _ _ spared => spared
  | unclear judged =>
    intro _ _ spared
    rwa [judged.aside.refusals_eq]
  | broken judged | steady judged =>
    intro _ _ spared
    simpa only [breakDown, hold, journal_modifyRule, judged.aside.refusals_eq] using spared
  | tried judged _ attempt concluded =>
    intro _ _ spared
    rwa [refusals_conclude concluded, judged.refusals_eq attempt.aside]
  | @wrote e e₁ e₂ e₃ e₄ e' id rule name value outcome written result judged armed writing inner
      aside outcome_eq concluded ih =>
    intro framed awaits spared
    rw [refusals_conclude concluded, aside.refusals_eq]
    have begun : Framed start (e₁.hold id true) := framed.trans (judged.framed_hold true)
    refine ih (begun.trans (.of_aside writing.aside)) ?_ ?_
    · rw [judged.dispatcher writing.aside]
      exact fair.awaits_write tidy.toPlain framed awaits judged writing
    · rwa [judged.refusals_eq writing.aside]
  | unchanged had => exact fun _ _ spared => spared
  | @changed e e' name value result new inner ih =>
    intro framed awaits spared
    refine ih (framed.trans (.put e name value)) ?_ spared
    intro callback member
    rw [framed.subscriptions] at member
    obtain ⟨same, heard⟩ := fair.wired.hears fair.kept member
    obtain ⟨signal, id⟩ := callback
    cases same
    exact awaits id heard
  | cons first _ head tail =>
    intro framed awaits spared
    obtain ⟨here, later⟩ := List.forall_mem_cons.1 awaits
    refine tail (framed.trans first.framed) ?_ (head framed here spared)
    rw [(first.smooth rfl).1]
    exact later
  | stop _ ih =>
    exact fun framed awaits spared => ih framed (awaits _ List.mem_cons_self) spared
  | @refused e callback error verdict =>
    intro framed awaits spared
    have thread : base.Thread (e.dispatcher.pending ++ [callback]) := awaits
    have crowded := thread.crowded tidy.acyclic verdict
    rw [framed.limit, fair.limit_eq] at crowded
    rw [refuse, note, refusals_append]
    exact List.forall_mem_append.2 ⟨spared, List.forall_mem_singleton.2 crowded⟩
  | @taken e e₁ callback result verdict _ ih =>
    intro framed awaits spared
    have pushed : (e.takeUp callback).dispatcher.pending = e.dispatcher.pending ++ [callback] :=
      Dispatcher.pending_enter_of_ok verdict
    have ended : refusals (e₁.leave callback result).journal = refusals e₁.journal :=
      refusals_note _ rfl
    have begun : refusals (e.takeUp callback).journal = refusals e.journal := refusals_note _ rfl
    rw [ended]
    refine ih (framed.trans (.takeUp e callback)) ?_ (begun ▸ spared)
    rw [pushed]
    exact ⟨awaits, by simp⟩

namespace Fair

variable {base e e' : Engine σ} {limit : Nat}

theorem cascade (tidy : base.Tidy) (fair : Fair base limit e) {task : Task}
    {result : Except ScriptError Unit} (awaits : base.Awaits task [])
    (cascade : Cascade task e result e') : Fair base limit e' where
  among := fair.among.of_framed cascade.framed
  bare := cascade.framed.devices.trans fair.bare
  wired := fair.wired.of_keeps cascade.framed.keeps cascade.framed.subscriptions
  kept := cascade.framed.keeps_from.trans fair.kept
  limit_eq := cascade.framed.limit.trans fair.limit_eq
  config_eq := (congrArg Config.callbackQueueLimit cascade.framed.config).trans fair.config_eq
  idle := by
    obtain ⟨_, orderly⟩ := cascade.orderly
    exact orderly.keptOrDropped.elim (·.trans fair.idle) (·)
  spared := cascade.crowded tidy fair (.refl e) (fair.idle ▸ awaits) fair.spared

theorem check (tidy : base.Tidy) (fair : Fair base limit e) {id : ListenerId}
    {result : Except ScriptError Unit} (cascade : Cascade (.check id) e result e') :
    Fair base limit e' := by
  have awaits : base.Awaits (.check id) [] := ⟨.nil base, by simp⟩
  exact fair.cascade tidy awaits cascade

theorem deliver (tidy : base.Tidy) (fair : Fair base limit e) {signal : String}
    {result : Except ScriptError Unit}
    (cascade : Cascade (.deliver (e.subscriptions.callbacks signal)) e result e') :
    Fair base limit e' := by
  have awaits : base.Awaits (.deliver (e.subscriptions.callbacks signal)) [] := fun _ member =>
    (Thread.nil base).push (fair.wired.hears fair.kept member).2 (by simp)
  exact fair.cascade tidy awaits cascade

theorem write (tidy : base.Tidy) (fair : Fair base limit e) {name : String} {value : Value}
    {result : Except ScriptError Unit} (cascade : Cascade (.write name value) e result e') :
    Fair base limit e' := by
  have awaits : base.Awaits (.write name value) [] := fun _ heard =>
    (Thread.nil base).push heard (by simp)
  exact fair.cascade tidy awaits cascade

theorem wires (fair : Fair base limit e) {id : ListenerId} {rule : Rule}
    (found : e.rule? id = some rule) (wires : Wires id rule.signals e e') :
    Fair base limit e' where
  among := wires.rewired.among fair.among
  bare := wires.rewired.bare fair.bare
  wired := fair.wired.wires found wires
  kept := wires.rewired.keeps_from.trans fair.kept
  limit_eq := (congrArg Dispatcher.limit wires.rewired.dispatcher).trans fair.limit_eq
  config_eq := by
    obtain ⟨_, _, _, _, _, rfl⟩ := wires.rewired
    exact fair.config_eq
  idle := (congrArg Dispatcher.pending wires.rewired.dispatcher).trans fair.idle
  spared := by
    obtain ⟨_, _, events, _, setup, rfl⟩ := wires.rewired
    rw [refusals_append_of_none fun event member => Event.refusal?_of_isSetup (setup event member)]
    exact fair.spared

theorem modifyRule (fair : Fair base limit e) (id : ListenerId) {f : Rule → Rule}
    (parts : ∀ rule, (f rule).parts = rule.parts) : Fair base limit (e.modifyRule id f) where
  among := fair.among.modifyRule id f
  bare := (devices_modifyRule e id f).trans fair.bare
  wired := fair.wired.of_keeps (.modifyRule parts e id) (subscriptions_modifyRule e id f)
  kept := (Keeps.from_modifyRule parts e id).trans fair.kept
  limit_eq := (congrArg Dispatcher.limit (dispatcher_modifyRule e id f)).trans fair.limit_eq
  config_eq := by
    rw [modifyRule_eq]
    exact fair.config_eq
  idle := (congrArg Dispatcher.pending (dispatcher_modifyRule e id f)).trans fair.idle
  spared := by
    rw [journal_modifyRule]
    exact fair.spared

theorem activate (tidy : base.Tidy) (fair : Fair base limit e) {depth : Nat} {id : ListenerId}
    {result : Except ScriptError Unit}
    (run : Engine.activate (handle depth) id e = some (result, e')) : Fair base limit e' := by
  rcases activate_cases run with rfl | ⟨rule, found, _, ⟨gaveUp, _⟩ | ⟨e₁, wires, _, checked⟩⟩
  · exact fair
  · exact fair.wires found gaveUp
  · have started : Fair base limit (e₁.start id) := by
      refine (fair.wires found wires).modifyRule id ?_
      exact fun _ => rfl
    exact started.check tidy ((handle_follows depth).check started.among checked)

theorem deactivate (fair : Fair base limit e) {id : ListenerId} {done : Unit}
    (run : Engine.deactivate id e = some (done, e')) : Fair base limit e' := by
  rcases deactivate_cases run with ⟨_, rfl⟩ | ⟨rule, e₁, found, wires, _, rfl⟩
  · exact fair
  · refine (fair.wires found wires).modifyRule id fun rule => ?_
    split <;> rfl

theorem tick (tidy : base.Tidy) (fair : Fair base limit e) {depth count : Nat}
    {ids : List ListenerId} (run : Book.tick.go (handle depth) ids e = some (count, e')) :
    Fair base limit e' := by
  induction ids generalizing e count with
  | nil =>
    cases run
    exact fair
  | cons id ids ih =>
    rw [Book.tick.go] at run
    obtain ⟨result, e₁, checked, rest⟩ := Run.bind_eq_some_iff.1 run
    have next := fair.check tidy ((handle_follows depth).check fair.among checked)
    cases result with
    | ok _ => exact ih next rest
    | error _ =>
      obtain ⟨_, _, rest, finish⟩ := Run.bind_eq_some_iff.1 rest
      cases finish
      exact ih next rest

theorem set (tidy : base.Tidy) (fair : Fair base limit e) {depth : Nat} {name : String}
    {value : Value} {result : Except ScriptError Unit}
    (run : serve (handle depth) (.set name value) e = some (result, e')) : Fair base limit e' := by
  rw [serve] at run
  split at run
  · cases value with
    | number n => exact fair.write tidy ((handle_follows depth).setGlobal fair.among run)
    | string s =>
      cases run
      exact fair
  · cases run
    exact fair

/-- What holds between commands is kept by every command. -/
theorem command (tidy : base.Tidy) (fair : Fair base limit e) {depth : Nat} {command : Command}
    {reply : Reply} (run : command.run depth e = some (reply, e')) : Fair base limit e' := by
  cases command <;> obtain ⟨_, _, ran, finish⟩ := Run.bind_eq_some_iff.1 run <;> cases finish
  case tick => exact fair.tick tidy ran
  all_goals obtain ⟨depth, served⟩ := served_of_handle ran
  case set => exact fair.set tidy served
  case advance =>
    have advanced : Fair base limit { e with ticker := e.ticker.advance } :=
      { fair with
        among := ⟨fair.among.listeners, fair.among.devices⟩
        wired := ⟨fair.wired.proper, fair.wired.listens⟩
        kept := fair.kept }
    rw [serve, advanceTicker, Run.modify_bind_apply] at served
    exact advanced.deliver tidy
      ((handle_follows depth).announceEverywhere advanced.among served)
  case activate => exact fair.activate tidy served
  case deactivate =>
    obtain ⟨_, _, ran, finish⟩ := Run.bind_eq_some_iff.1 served
    cases finish
    exact fair.deactivate ran
  case check => exact fair.check tidy ((handle_follows depth).check fair.among served)

theorem candid (tidy : base.Tidy) (fair : Fair base limit e) : Candid e where
  among := fair.among
  bare := fair.bare
  unguarded found := by
    obtain ⟨rule, found', parts⟩ := fair.kept _ _ found
    exact ((tidy.predictable found').unguarded tidy.bare).of_parts parts

/-- An error of the dispatcher is one for want of room, on each command. -/
theorem crowded (tidy : base.Tidy) (fair : Fair base limit e) {depth : Nat} {command : Command}
    {cause : DispatchError}
    (run : command.run depth e = some (.result (.error (.dispatch cause)), e')) :
    base.Crowded limit cause :=
  (fair.command tidy run).spared cause (command_tells (fair.candid tidy) run cause rfl)

theorem listen (fair : Fair base limit e) {rule : Rule}
    (kept : Keeps (e.addListener (.rule rule)).2 base) :
    Fair base limit (e.addListener (.rule rule)).2 :=
  { fair with
    among := fair.among.addListener rule
    wired := fair.wired.of_keeps (.addListener e _) rfl
    kept }

/-! ## Runs -/

/-- What holds between commands is kept by every run of commands, and no reply of it tells of
anything else. -/
theorem run (tidy : base.Tidy) {commands : List Command} {depth : Nat} {replies : List Reply}
    (fair : Fair base limit e)
    (run : commands.mapM (Command.run depth) e = some (replies, e')) :
    Fair base limit e' ∧ ∀ cause, .result (.error (.dispatch cause)) ∈ replies →
      base.Crowded limit cause := by
  induction commands generalizing e replies with
  | nil =>
    cases run
    exact ⟨fair, fun _ => nofun⟩
  | cons command commands ih =>
    rw [List.mapM_cons] at run
    obtain ⟨reply, e₁, ran, run⟩ := Run.bind_eq_some_iff.1 run
    obtain ⟨rest, _, ranToo, finish⟩ := Run.bind_eq_some_iff.1 run
    cases finish
    obtain ⟨last, told⟩ := ih (fair.command tidy ran) ranToo
    refine ⟨last, fun cause member => ?_⟩
    rcases List.mem_cons.1 member with rfl | later
    · exact fair.crowded tidy ran
    · exact told cause later

theorem run_ends (tidy : base.Tidy) {depth : Nat} (deep : limit + 2 ≤ depth)
    (commands : List Command) (fair : Fair base limit e) (hosted : Hosted e) :
    ∃ replies e', commands.mapM (Command.run depth) e = some (replies, e') := by
  induction commands generalizing e with
  | nil => exact ⟨[], e, rfl⟩
  | cons command commands ih =>
    obtain ⟨reply, e₁, ran⟩ := hosted.command_ends (fair.limit_eq ▸ deep) command
    obtain ⟨replies, e', rest⟩ := ih (fair.command tidy ran) (hosted.command ran)
    refine ⟨reply :: replies, e', ?_⟩
    rw [List.mapM_cons]
    exact Run.bind_eq_some_iff.2 ⟨reply, e₁, ran,
      Run.bind_eq_some_iff.2 ⟨replies, e', rest, rfl⟩⟩

end Fair

/-- The rules of an engine on the way to `base` are some of those of `base`, so they are as
predictable, and no way through their graph leads back either. -/
theorem Reached.fair {accepted : Reply → Prop} {base e : Engine σ} (tidy : base.Tidy)
    (reached : Reached accepted e) (kept : Keeps e base) :
    Fair base e.config.callbackQueueLimit e := by
  induction reached with
  | create config foreign =>
    refine ⟨.create config foreign, rfl, ⟨Subscriptions.proper_empty, ?_⟩, kept, rfl, rfl, rfl, ?_⟩
    · exact fun listed => absurd listed List.not_mem_nil
    · exact fun _ listed => absurd listed List.not_mem_nil
  | compile _ _ ih | build _ _ ih => exact (ih ((Keeps.addListener _ _).trans kept)).listen kept
  | command _ run _ ih =>
    have fair := (ih ((keeps_closed.command _ _ _ _ _ run).trans kept)).command tidy run
    rw [fair.config_eq]
    exact fair

/-- Where the actions of all rules log or write a signal of a constant name, and the graph of the
rules has no cycle, no run of commands comes upon a callback that would close one: none is refused
for this reason, and no reply says so. If besides no path of the graph is longer than the limit of
the queue, no callback is refused at all. The limit also says how deeply requests nest at most. -/
theorem no_false_cycles {accepted : Reply → Prop} {e : Engine σ} (reached : Reached accepted e)
    (predictable : ∀ {id rule}, e.rule? id = some rule → e.Predictable rule)
    (acyclic : e.Acyclic) (commands : List Command) :
    (∀ {depth : Nat}, e.config.callbackQueueLimit + 2 ≤ depth →
      ∃ replies e', commands.mapM (Command.run depth) e = some (replies, e')) ∧
    ∀ {depth : Nat} {replies : List Reply} {e' : Engine σ},
      commands.mapM (Command.run depth) e = some (replies, e') →
        (∀ signal chain, .circular signal chain ∉ refusals e'.journal ∧
          .result (.error (.dispatch (.circular signal chain))) ∉ replies) ∧
        ((∀ path, e.Path path → path.length ≤ e.config.callbackQueueLimit) →
          refusals e'.journal = [] ∧ ∀ cause, .result (.error (.dispatch cause)) ∉ replies) := by
  have tidy : e.Tidy := ⟨⟨reached.atRest.bare, predictable⟩, acyclic⟩
  have fair := reached.fair tidy (.refl e)
  refine ⟨fun deep => fair.run_ends tidy deep commands reached.hosted, fun run => ?_⟩
  obtain ⟨last, told⟩ := fair.run tidy run
  refine ⟨fun signal chain => ⟨last.spared _, told _⟩, fun fits => ?_⟩
  have roomy : ∀ cause, ¬e.Crowded e.config.callbackQueueLimit cause := by
    rintro (⟨signal, chain⟩ | ⟨limit, signal⟩) crowded
    · exact crowded
    · obtain ⟨path, isPath, long⟩ := crowded
      exact Nat.not_lt.2 (fits path isPath) long
  exact ⟨List.eq_nil_iff_forall_not_mem.2 fun cause listed =>
      roomy cause (last.spared cause listed),
    fun cause listed => roomy cause (told cause listed)⟩

/-- A change of the first signal reaches the last rule by way of the other two, and at once. -/
def trickle : Engine Unit :=
  create { callbackQueueLimit := 3 } ()
  |>.withRule ⟨1⟩
    { condition := "(sig Signals.A)", action := "(act Signals.Set 'B' (sig Signals.A))" }
  |>.withRule ⟨2⟩
    { condition := "(sig Signals.B)", action := "(act Signals.Set 'C' (sig Signals.B))" }
  |>.withRule ⟨1⟩
    { condition := "(or (sig Signals.C) (sig Signals.A))", action := "(act Debug.Log 'done')" }

theorem Plain.create (config : Config) (foreign : σ) : Plain (create config foreign) where
  bare := rfl
  predictable found := by
    rw [rule?_create] at found
    cases found

theorem Plain.withRule {e : Engine σ} (plain : e.Plain) (host : HostId) (record : RuleRecord) :
    (e.withRule host record).Plain := by
  unfold Engine.withRule
  split
  · rename_i new made
    refine ⟨plain.bare, fun {id rule} found => ?_⟩
    have known : e.Predictable rule := by
      rw [rule?_addListener] at found
      split at found
      · cases found
        exact predictable_of_ofRecord plain.bare made
      · exact plain.predictable found
    exact ⟨known.condition, known.args, known.action, known.effect⟩
  · exact plain

/-- The chain fills the queue and does not overflow it. -/
theorem trickle_reports_no_cycle : ∃ replies e',
    [.activate ⟨1⟩, .activate ⟨2⟩, .activate ⟨3⟩, .set "A" (.number (.ofInt 1))].mapM
        (Command.run 5) trickle = some (replies, e') ∧
      refusals e'.journal = [] ∧
      ∃ queue ∈ e'.journal.filterMap Event.queue?, queue.length = 3 := by
  have known : ([Command.activate ⟨1⟩, .activate ⟨2⟩, .activate ⟨3⟩,
      .set "A" (.number (.ofInt 1))].mapM (Command.run 5) trickle).map (fun answer =>
        (answer.2.journal.filterMap Event.queue?).any (·.length = 3)) = some true := by
    decide +kernel
  have reached : Reached (fun _ => True) trickle := by
    unfold trickle
    exact (((Reached.create _ ()).withRule _ _).withRule _ _).withRule _ _
  have plain : Plain trickle := by
    unfold trickle
    exact (((Plain.create _ ()).withRule _ _).withRule _ _).withRule _ _
  let order := ["Signals.A", "Signals.B", "Signals.C"]
  obtain ⟨grows, room⟩ :
      (∀ edge ∈ trickle.edges, order.idxOf edge.1 < order.idxOf edge.2) ∧
        trickle.mentioned.eraseDups.length = trickle.config.callbackQueueLimit := by
    decide +kernel
  have acyclic : trickle.Acyclic := acyclic_of_rank (order.idxOf ·) grows
  obtain ⟨⟨replies, e'⟩, run, filled⟩ := Option.map_eq_some_iff.1 known
  obtain ⟨_, spared⟩ := (no_false_cycles reached plain.predictable acyclic _).2 run
  obtain ⟨none, _⟩ := spared fun path isPath => room ▸ isPath.length_le acyclic
  obtain ⟨queue, listed, full⟩ := List.any_eq_true.1 filled
  exact ⟨replies, e', run, none, queue, listed, of_decide_eq_true full⟩

end Engine

end SignalRules
