import SignalRules.Proofs.OneShot
import SignalRules.Proofs.Traces

/-! # Actions that are to run once

A rule whose action is marked to run once is completed when the action returns. Until then the rule
is active, and the action may call it back: if its condition has fallen and risen again meanwhile,
the action runs again inside itself. That happens at most once, and it is the only way for such an
action to complete twice.

The reason is that an action that calls anyone back writes a signal, and that its second run, being
inside the announcement of that signal, either finds the signal as it is to be or closes a cycle.
-/

namespace SignalRules

/-- The action of the rule has completed. -/
def Event.completion? (id : ListenerId) : Event → Option Unit
  | .fired rule (.ready _) => if rule = id then some () else none
  | _ => none

/-- The queues at which the action of a rule has completed. -/
def completions (id : ListenerId) (queue : List Callback) (events : List Event) :
    List (List Callback) :=
  (occurrences (Event.completion? id) queue events).map Prod.fst

theorem completions_append (id : ListenerId) (queue : List Callback) (first rest : List Event) :
    completions id queue (first ++ rest) =
      completions id queue first ++ completions id (queueAfter queue first) rest := by
  rw [completions, occurrences_append, List.map_append]
  rfl

theorem completions_of_none {id : ListenerId} {events : List Event}
    (none : ∀ event ∈ events, event.completion? id = none) (queue : List Callback) :
    completions id queue events = [] := by
  rw [completions, occurrences_of_none none]
  rfl

theorem selective_completion? (id : ListenerId) : Selective (Event.completion? id) := by
  intro event aside
  cases event <;> first | rfl | cases aside

theorem Call.OneShot.completion {call : Call} {target : String} (oneShot : call.OneShot target) :
    call.completion = .doneOnce := by
  rw [Call.completion, oneShot.once]
  rfl

theorem Event.completion?_of_isSetup {event : Event} (setup : event.isSetup) (id : ListenerId) :
    event.completion? id = none := by
  cases event <;> first | rfl | cases setup

/-- How an action that is to run once completes in the course of a task begun with this queue:
never, once, or twice, the first time inside the second, called back by it. -/
def Shape (id : ListenerId) (queue : List Callback) (found : List (List Callback)) : Prop :=
  found = [] ∨ (∃ chain, found = [queue ++ chain]) ∨
    ∃ chain inner signal, found = [queue ++ chain ++ inner ++ [⟨signal, id⟩], queue ++ chain]

section

variable {id : ListenerId} {queue : List Callback} {found : List (List Callback)}
  (single : found.length ≤ 1)
  (called : ∀ inner ∈ found, ∃ chain signal, inner = queue ++ chain ++ [⟨signal, id⟩])

include single called

theorem shape_of_inner : Shape id queue found := by
  match found with
  | [] => exact .inl rfl
  | [inner] =>
    obtain ⟨chain, signal, same⟩ := called inner List.mem_cons_self
    exact .inr (.inl ⟨chain ++ [⟨signal, id⟩], by rw [same, List.append_assoc]⟩)

theorem shape_of_inner_append : Shape id queue (found ++ [queue]) := by
  match found with
  | [] => exact .inr (.inl ⟨[], by simp⟩)
  | [inner] =>
    obtain ⟨chain, signal, same⟩ := called inner List.mem_cons_self
    exact .inr (.inr ⟨[], chain, signal, by simp [same]⟩)

end

/-- All that the task may tell is of this signal. -/
def Task.Concerns (target : String) : Task → Prop
  | .check _ => False
  | .write name _ => name = target
  | .deliver callbacks => ∀ callback ∈ callbacks, callback.signal = Globals.fullName target
  | .schedule callback => callback.signal = Globals.fullName target

/-- The task tells subscribers only. -/
def Task.Subscribed (t : Subscriptions) : Task → Prop
  | .check _ => True
  | .write _ _ => True
  | .deliver callbacks => ∀ callback ∈ callbacks, callback ∈ t.callbacks callback.signal
  | .schedule callback => callback ∈ t.callbacks callback.signal

namespace Engine

variable {σ : Type}

/-- The rule, if there is one, is not active. -/
def Resting (e : Engine σ) (id : ListenerId) : Prop :=
  ∀ rule, e.rule? id = some rule → rule.state ≠ .active

theorem Resting.framed {e e' : Engine σ} {id : ListenerId} (resting : Resting e id)
    (framed : Framed e e') : Resting e' id := by
  intro rule' found'
  obtain ⟨rule, found, follows⟩ := framed.was_found found'
  exact fun active => resting rule found (follows.was_active active)

/-- The signal is being announced. -/
def Announcing (e : Engine σ) (target : String) : Prop :=
  ∃ callback ∈ e.dispatcher.pending, callback.signal = Globals.fullName target

/-- What is known of an engine in which a rule that is to run once may be checked. -/
structure Watched (e : Engine σ) (id : ListenerId) (call : Call) : Prop where
  bare : e.devices = []
  action : ∀ own ∈ e.action? id, own = call
  pending : ∀ callback ∈ e.dispatcher.pending,
    callback ∈ e.subscriptions.callbacks callback.signal

/-- What the entries of a task tell of a rule that is to run once. -/
structure Tally (id : ListenerId) (target : String) (task : Task) (e : Engine σ)
    (events : List Event) (e' : Engine σ) : Prop where
  orderly : Orderly e events e'
  resting : Resting e id → completions id e.dispatcher.pending events = []
  spent : completions id e.dispatcher.pending events ≠ [] → Resting e' id
  single : Announcing e target ∨ task.Concerns target →
    (completions id e.dispatcher.pending events).length ≤ 1
  shape : Shape id e.dispatcher.pending (completions id e.dispatcher.pending events)
  called : ∀ queue ∈ completions id e.dispatcher.pending events,
    task = .check id ∧ queue = e.dispatcher.pending ∨
      ∃ chain signal, queue = e.dispatcher.pending ++ chain ++ [⟨signal, id⟩]

theorem Watched.framed {e e' : Engine σ} {id : ListenerId} {call : Call}
    (watched : Watched e id call) (framed : Framed e e')
    (pending : e'.dispatcher.pending = e.dispatcher.pending) : Watched e' id call where
  bare := framed.devices.trans watched.bare
  action := by
    rw [framed.action?]
    exact watched.action
  pending := by
    rw [pending, framed.subscriptions]
    exact watched.pending

theorem Judged.not_resting {e e' : Engine σ} {id : ListenerId} {rule : Rule} {truth : Outcome Bool}
    (judged : Judged e id rule truth e') : ¬Resting e id :=
  fun resting => resting rule judged.found judged.active

/-! ## Announcements -/

/-- Callbacks are delivered only if none of them is pending. -/
theorem Cascade.deliver_absent {callbacks : List Callback} {e e' : Engine σ}
    (cascade : Cascade (.deliver callbacks) e (.ok ()) e') :
    ∀ callback ∈ callbacks, callback ∉ e.dispatcher.pending := by
  induction callbacks generalizing e with
  | nil => simp
  | cons callback callbacks ih =>
    cases cascade with
    | cons first rest =>
      intro other member
      rcases List.mem_cons.1 member with rfl | later
      · cases first with
        | taken verdict _ => exact ((Dispatcher.enter_eq_ok_iff _ _).1 verdict).1
      · rw [← (first.smooth rfl).1]
        exact ih rest other later

/-- While a signal is announced it cannot be given another value. -/
theorem Cascade.write_while_announcing {target : String} {value : Value} {e e' : Engine σ}
    {id : ListenerId} {call : Call} (watched : Watched e id call)
    (announcing : Announcing e target) (cascade : Cascade (.write target value) e (.ok ()) e') :
    e'.journal = e.journal := by
  cases cascade with
  | unchanged => rfl
  | changed _ inner =>
    obtain ⟨callback, pending, same⟩ := announcing
    have subscribed := watched.pending callback pending
    rw [same] at subscribed
    exact absurd pending (inner.deliver_absent callback subscribed)

/-! ## Tallies -/

namespace Tally

variable {id : ListenerId} {target : String} {task : Task} {e e' : Engine σ} {events : List Event}

theorem of_none (orderly : Orderly e events e')
    (none : completions id e.dispatcher.pending events = []) :
    Tally id target task e events e' where
  orderly := orderly
  resting _ := none
  spent some := absurd none some
  single _ := by simp [none]
  shape := .inl none
  called queue member := by
    rw [none] at member
    cases member

theorem of_hushed (hushed : Hushed e events e') : Tally id target task e events e' :=
  of_none hushed.orderly <| completions_of_none
    (fun event member => selective_completion? id (hushed.aside event member)) _

theorem of_nil (dispatcher : e'.dispatcher = e.dispatcher) (journal : e'.journal = e.journal) :
    Tally id target task e [] e' :=
  of_none (.of_same dispatcher (by simp [journal]) (by simp)) rfl

end Tally

/-- The rule has just completed its action. -/
theorem resting_of_completed {e e' : Engine σ} {id : ListenerId} {before : Nat}
    {result : Except ScriptError Unit}
    (concluded : (e.conclude id before (.ready .doneOnce)) = (result, e')) : Resting e' id := by
  cases concluded
  intro rule found
  obtain ⟨_, _, rfl⟩ := of_rule?_modifyRule found
  exact nofun

/-- A rule that is not active does not become so by a failure. -/
theorem Resting.conclude_failed {e e' : Engine σ} {id : ListenerId} {before : Nat}
    {error : ScriptError} {result : Except ScriptError Unit} (resting : Resting e id)
    (concluded : (e.conclude id before (.failed error)) = (result, e')) : Resting e' id := by
  rw [conclude] at concluded
  split at concluded
  · cases concluded
    exact resting
  · cases concluded
    intro rule found
    obtain ⟨_, _, rfl⟩ := of_rule?_modifyRule found
    exact fun active => by cases active

theorem rule?_conclude_of_ne {e e' : Engine σ} {id other : ListenerId} (ne : other ≠ id)
    {before : Nat} {outcome : Outcome Expr.Completion} {result : Except ScriptError Unit}
    (concluded : e.conclude id before outcome = (result, e')) :
    e'.rule? other = e.rule? other := by
  obtain ⟨_, _, rfl⟩ := settled_of_concluded concluded
  exact rule?_modifyRule_of_ne e ne _

theorem completions_fired_of_ne {id checked : ListenerId} (ne : checked ≠ id)
    (outcome : Outcome Expr.Completion) (queue : List Callback) :
    completions id queue [.fired checked outcome] = [] := by
  refine completions_of_none (fun event member => ?_) queue
  rw [List.mem_singleton.1 member]
  cases outcome with
  | ready _ => exact if_neg ne
  | interrupted _ | failed _ => rfl

theorem completions_fired_ready (id : ListenerId) (c : Expr.Completion) (queue : List Callback) :
    completions id queue [.fired id (.ready c)] = [queue] := by
  simp [completions, occurrences, Event.completion?, Event.queue?]

/-- A rule that is to run once tries an action that tells nobody of anything. -/
theorem tally_tried {e e₁ e₂ e' : Engine σ} {id checked : ListenerId} {target : String}
    {call : Call} {rule : Rule} {outcome : Outcome Expr.Completion}
    {result : Except ScriptError Unit} (oneShot : call.OneShot target) (watched : Watched e id call)
    (judged : Judged e checked rule (.ready true) e₁)
    (attempt : Attempt (e₁.hold checked true) rule.action outcome e₂)
    (concluded : (e₂.note (.fired checked outcome)).conclude checked e.dispatcher.failures outcome =
      (result, e')) :
    ∃ events, Tally id target (.check checked) e events e' := by
  obtain ⟨events, orderly, traced⟩ := judged.tried attempt.aside concluded
  have counted : completions id e.dispatcher.pending events =
      completions id e.dispatcher.pending [.fired checked outcome] :=
    congrArg (List.map Prod.fst) (traced (selective_completion? id))
  refine ⟨events, ?_⟩
  by_cases same : checked = id
  · subst same
    cases outcome with
    | ready c =>
      rw [completions_fired_ready] at counted
      have finished : c = .doneOnce := by
        have own := watched.action _ (action?_of_rule? judged.found)
        rw [attempt.completion c rfl, own, oneShot.completion]
      subst finished
      exact
        { orderly
          resting := fun resting => absurd resting judged.not_resting
          spent := fun _ => resting_of_completed concluded
          single := fun _ => by rw [counted]; simp
          shape := .inr (.inl ⟨[], by rw [counted]; simp⟩)
          called := fun queue member => by
            rw [counted] at member
            exact .inl ⟨rfl, List.mem_singleton.1 member⟩ }
    | interrupted _ | failed _ =>
      exact .of_none orderly counted
  · rw [completions_fired_of_ne same] at counted
    exact .of_none orderly counted

/-- A rule that is to run once writes its signal: another run inside this one was called back by it,
and there is at most one. -/
theorem tally_wrote {e e₁ e₂ e₃ e₄ e' : Engine σ} {id : ListenerId} {target : String} {call : Call}
    {rule : Rule} {name : String} {value : Value} {outcome : Outcome Expr.Completion}
    {written result : Except ScriptError Unit} {inside : List Event}
    (oneShot : call.OneShot target) (watched : Watched e id call)
    (judged : Judged e id rule (.ready true) e₁)
    (writing : Writing (e₁.hold id true) rule.action name value e₂)
    (inner : Cascade (.write name value) e₂ written e₃)
    (tally : Tally id target (.write name value) e₂ inside e₃) (aside : Aside e₃ e₄)
    (outcome_eq : outcome = (Outcome.ofExcept written).map fun _ => rule.action.completion)
    (concluded : (e₄.note (.fired id outcome)).conclude id e.dispatcher.failures outcome =
      (result, e')) :
    ∃ events, Tally id target (.check id) e events e' := by
  obtain ⟨events, orderly, traced⟩ := judged.wrote writing.aside tally.orderly aside concluded
  have counted : completions id e.dispatcher.pending events =
      completions id e.dispatcher.pending inside ++
        completions id e₃.dispatcher.pending [.fired id outcome] := by
    rw [completions, traced (selective_completion? id), List.map_append]
    rfl
  have queue : e₂.dispatcher.pending = e.dispatcher.pending := by
    rw [judged.dispatcher writing.aside]
  obtain rfl := watched.action _ (action?_of_rule? judged.found)
  obtain rfl : name = target :=
    oneShot.writes writing.action (writing.arguments (judged.bare_hold watched.bare true))
  have single := tally.single (.inr rfl)
  have called : ∀ queue ∈ completions id e.dispatcher.pending inside,
      ∃ chain signal, queue = e.dispatcher.pending ++ chain ++ [⟨signal, id⟩] := by
    intro found member
    rw [← queue] at member ⊢
    exact (tally.called found member).resolve_left nofun
  rw [queue] at single
  refine ⟨events, ?_⟩
  cases written with
  | error error =>
    have failed : outcome = .failed error := outcome_eq
    subst failed
    have unfinished : completions id e₃.dispatcher.pending [.fired id (.failed error)] = [] := rfl
    rw [unfinished, List.append_nil] at counted
    exact
      { orderly
        resting := fun resting => absurd resting judged.not_resting
        spent := fun some => by
          rw [counted, ← queue] at some
          have resting := (tally.spent some).framed (.of_aside aside)
          exact (resting.framed (.note (.refl _) _)).conclude_failed concluded
        single := fun _ => by rwa [counted]
        shape := by
          rw [counted]
          exact shape_of_inner single called
        called := fun found member => .inr (called found (counted ▸ member)) }
  | ok _ =>
    have finished : outcome = .ready .doneOnce := by
      rw [outcome_eq, oneShot.completion]
      rfl
    subst finished
    rw [completions_fired_ready, (inner.smooth rfl).1, queue] at counted
    exact
      { orderly
        resting := fun resting => absurd resting judged.not_resting
        spent := fun _ => resting_of_completed concluded
        single := by
          rintro (⟨callback, pending, same⟩ | concerned)
          · -- The signal had its value already, so that nobody was told.
            have framed := (judged.framed_hold true).trans (.of_aside writing.aside)
            have still := inner.write_while_announcing (watched.framed framed queue)
              ⟨callback, queue ▸ pending, same⟩
            have nothing : inside = [] :=
              List.append_right_eq_self.1 (tally.orderly.journal.symm.trans still)
            rw [counted, nothing]
            simp [completions, occurrences]
          · exact concerned.elim
        shape := by
          rw [counted]
          exact shape_of_inner_append single called
        called := by
          intro found member
          rw [counted] at member
          rcases List.mem_append.1 member with inInner | last
          · exact .inr (called found inInner)
          · exact .inl ⟨rfl, List.mem_singleton.1 last⟩ }

/-- What another rule does in its action counts for this one as it is. -/
theorem tally_other {e e₁ e₂ e₃ e₄ e' : Engine σ} {id checked : ListenerId} {target name : String}
    {value : Value} {rule : Rule} {outcome : Outcome Expr.Completion}
    {result : Except ScriptError Unit} {inside : List Event} (ne : checked ≠ id)
    (judged : Judged e checked rule (.ready true) e₁)
    (writing : Writing (e₁.hold checked true) rule.action name value e₂)
    (tally : Tally id target (.write name value) e₂ inside e₃) (aside : Aside e₃ e₄)
    (concluded : (e₄.note (.fired checked outcome)).conclude checked e.dispatcher.failures outcome =
      (result, e')) :
    ∃ events, Tally id target (.check checked) e events e' := by
  obtain ⟨events, orderly, traced⟩ := judged.wrote writing.aside tally.orderly aside concluded
  have counted : completions id e.dispatcher.pending events =
      completions id e.dispatcher.pending inside ++
        completions id e₃.dispatcher.pending [.fired checked outcome] := by
    rw [completions, traced (selective_completion? id), List.map_append]
    rfl
  have queue : e₂.dispatcher.pending = e.dispatcher.pending := by
    rw [judged.dispatcher writing.aside]
  rw [completions_fired_of_ne ne, List.append_nil] at counted
  obtain ⟨_, resting, spent, single, shape, called⟩ := tally
  rw [queue, ← counted] at resting spent single shape called
  refine ⟨_, orderly, fun rests => resting (rests.framed ?_), fun some => ?_, ?_, shape, ?_⟩
  · exact (judged.framed_hold true).trans (.of_aside writing.aside)
  · have rests := (spent some).framed (.of_aside aside)
    intro rule found
    rw [rule?_conclude_of_ne ne.symm concluded] at found
    exact rests rule found
  · rintro (⟨callback, pending, same⟩ | concerned)
    · exact single (.inl ⟨callback, queue ▸ pending, same⟩)
    · exact concerned.elim
  · exact fun found member => .inr ((called found member).resolve_left nofun)

/-- Once the rule is spent it completes no more. -/
theorem Tally.cons {id : ListenerId} {target : String} {callback : Callback}
    {callbacks : List Callback} {e e₁ e' : Engine σ} {first rest : List Event}
    (head : Tally id target (.schedule callback) e first e₁)
    (tail : Tally id target (.deliver callbacks) e₁ rest e')
    (queue : e₁.dispatcher.pending = e.dispatcher.pending)
    (framed : Framed e₁ e') (framedFirst : Framed e e₁) :
    Tally id target (.deliver (callback :: callbacks)) e (first ++ rest) e' := by
  have counted := completions_append id e.dispatcher.pending first rest
  rw [head.orderly.shown] at counted
  -- If the first callback completes the action, the rule is spent for the others.
  by_cases none : completions id e.dispatcher.pending first = []
  · rw [none, List.nil_append, queue] at counted
    obtain ⟨orderly, resting, spent, single, shape, called⟩ := tail
    rw [queue, ← counted] at resting spent single shape called
    refine ⟨head.orderly.trans orderly, fun rests => resting (rests.framed framedFirst), spent,
      fun single' => single (single'.imp ?_ ?_), shape, fun found member => ?_⟩
    · exact fun ⟨other, pending, same⟩ => ⟨other, queue ▸ pending, same⟩
    · exact fun concerned other member => concerned other (List.mem_cons_of_mem _ member)
    · exact .inr ((called found member).resolve_left nofun)
  · have spent := head.spent none
    rw [tail.resting spent, List.append_nil] at counted
    refine ⟨head.orderly.trans tail.orderly, fun rests => ?_, fun _ => spent.framed framed,
      fun single => ?_, ?_, fun found member => ?_⟩
    · exact absurd (head.resting rests) none
    · rw [counted]
      exact head.single (single.imp (·) fun concerned => concerned callback List.mem_cons_self)
    · rw [counted]
      exact head.shape
    · rw [counted] at member
      exact .inr ((head.called found member).resolve_left nofun)

theorem Tally.of_changed {id : ListenerId} {target name : String} {value : Value}
    {e e' : Engine σ} {events : List Event}
    (tally : Tally id target (.deliver (e.subscriptions.callbacks (Globals.fullName name)))
      { e with globals := e.globals.put name value } events e') :
    Tally id target (.write name value) e events e' where
  orderly := { tally.orderly with }
  resting := tally.resting
  spent := tally.spent
  single := fun single => tally.single (single.imp (·) fun same callback member => by
    rw [Subscriptions.signal_of_mem_callbacks member, same])
  shape := tally.shape
  called := fun found member => .inr ((tally.called found member).resolve_left nofun)

theorem Tally.of_stop {id : ListenerId} {target : String} {callback : Callback}
    {callbacks : List Callback} {e e' : Engine σ} {events : List Event}
    (tally : Tally id target (.schedule callback) e events e') :
    Tally id target (.deliver (callback :: callbacks)) e events e' where
  orderly := tally.orderly
  resting := tally.resting
  spent := tally.spent
  single := fun single => tally.single
    (single.imp (·) fun concerned => concerned callback List.mem_cons_self)
  shape := tally.shape
  called := fun found member => .inr ((tally.called found member).resolve_left nofun)

theorem Shape.of_pushed {id : ListenerId} {queue : List Callback} {callback : Callback}
    {found : List (List Callback)} (shape : Shape id (queue ++ [callback]) found) :
    Shape id queue found := by
  rcases shape with none | ⟨chain, one⟩ | ⟨chain, inner, signal, two⟩
  · exact .inl none
  · exact .inr (.inl ⟨callback :: chain, by simp [one]⟩)
  · exact .inr (.inr ⟨callback :: chain, inner, signal, by simp [two]⟩)

theorem Tally.of_taken {id : ListenerId} {target : String} {callback : Callback}
    {e e₁ : Engine σ} {inside : List Event} (result : Except ScriptError Unit)
    (verdict : (e.dispatcher.enter callback).2 = .ok ())
    (tally : Tally id target (.check callback.listener) (e.takeUp callback) inside e₁) :
    Tally id target (.schedule callback) e
      (.entered callback (e.dispatcher.pending ++ [callback]) :: inside ++
        [.left callback result (e₁.leave callback result).dispatcher.pending])
      (e₁.leave callback result) := by
  have pushed : (e.takeUp callback).dispatcher.pending = e.dispatcher.pending ++ [callback] :=
    Dispatcher.pending_enter_of_ok verdict
  have counted : completions id e.dispatcher.pending
      (.entered callback (e.dispatcher.pending ++ [callback]) :: inside ++
        [.left callback result (e₁.leave callback result).dispatcher.pending]) =
      completions id (e.dispatcher.pending ++ [callback]) inside := by
    rw [completions_append]
    exact List.append_nil _
  obtain ⟨orderly, resting, spent, single, shape, called⟩ := tally
  rw [pushed, ← counted] at resting spent single shape called
  refine ⟨.of_taken verdict orderly, resting, spent, fun single' => single (.inl ?_),
    Shape.of_pushed shape, fun found member => .inr ?_⟩
  · rcases single' with ⟨other, pending, same⟩ | concerned
    · exact ⟨other, by rw [pushed]; exact List.mem_append_left _ pending, same⟩
    · exact ⟨callback, by rw [pushed]; simp, concerned⟩
  · rcases called found member with ⟨same, here⟩ | ⟨chain, signal, deeper⟩
    · injection same with same
      exact ⟨[], callback.signal, by rw [here, List.append_nil, ← same]⟩
    · exact ⟨callback :: chain, signal, by simp [deeper]⟩

theorem Cascade.tally {task : Task} {e e' : Engine σ} {result : Except ScriptError Unit}
    {id : ListenerId} {target : String} {call : Call} (cascade : Cascade task e result e')
    (oneShot : call.OneShot target) (watched : Watched e id call)
    (subscribed : task.Subscribed e.subscriptions) :
    ∃ events, Tally id target task e events e' := by
  induction cascade with
  | asleep => exact ⟨[], .of_nil rfl rfl⟩
  | unclear judged =>
    obtain ⟨events, hushed⟩ := Hushed.of_aside judged.aside
    exact ⟨events, .of_hushed hushed⟩
  | broken judged =>
    obtain ⟨events, hushed⟩ := Hushed.of_aside judged.aside
    exact ⟨events, .of_hushed (hushed.modify _ _)⟩
  | steady judged =>
    obtain ⟨events, hushed⟩ := Hushed.of_aside judged.aside
    exact ⟨events, .of_hushed (hushed.modify _ _)⟩
  | tried judged _ attempt concluded => exact tally_tried oneShot watched judged attempt concluded
  | @wrote e e₁ e₂ e₃ e₄ e' checked _ _ _ _ _ _ judged _ writing inner aside outcome_eq
      concluded ih =>
    have framed := (judged.framed_hold true).trans (.of_aside writing.aside)
    have queue : e₂.dispatcher.pending = e.dispatcher.pending := by
      rw [judged.dispatcher writing.aside]
    obtain ⟨inside, tally⟩ := ih (watched.framed framed queue) trivial
    by_cases same : checked = id
    · subst same
      exact tally_wrote oneShot watched judged writing inner tally aside outcome_eq concluded
    · exact tally_other same judged writing tally aside concluded
  | unchanged => exact ⟨[], .of_nil rfl rfl⟩
  | @changed e e' name value result new inner ih =>
    have told : Task.Subscribed e.subscriptions
        (.deliver (e.subscriptions.callbacks (Globals.fullName name))) := by
      intro callback member
      rwa [Subscriptions.signal_of_mem_callbacks member]
    obtain ⟨events, tally⟩ := ih (watched.framed (.put e name value) rfl) told
    exact ⟨events, tally.of_changed⟩
  | nil => exact ⟨[], .of_nil rfl rfl⟩
  | @cons e e₁ e' callback callbacks result first rest ihFirst ihRest =>
    have queue := (first.smooth rfl).1
    obtain ⟨before, head⟩ := ihFirst watched (subscribed callback List.mem_cons_self)
    obtain ⟨after, tail⟩ := ihRest (watched.framed first.framed queue) <| by
      rw [first.framed.subscriptions]
      exact fun other member => subscribed other (List.mem_cons_of_mem _ member)
    exact ⟨_, head.cons tail queue rest.framed first.framed⟩
  | @stop e e' callback callbacks error first ih =>
    obtain ⟨events, tally⟩ := ih watched (subscribed callback List.mem_cons_self)
    exact ⟨events, tally.of_stop⟩
  | refused verdict => exact ⟨_, .of_none (.of_refused verdict) rfl⟩
  | @taken e e₁ callback result verdict inner ih =>
    have pushed : (e.takeUp callback).dispatcher.pending = e.dispatcher.pending ++ [callback] :=
      Dispatcher.pending_enter_of_ok verdict
    have framed := Framed.takeUp e callback
    obtain ⟨inside, tally⟩ := ih
      { bare := watched.bare
        action := watched.action
        pending := by
          rw [pushed]
          intro other member
          rcases List.mem_append.1 member with old | new
          · exact watched.pending other old
          · rw [List.mem_singleton.1 new]
            exact subscribed } trivial
    exact ⟨_, tally.of_taken result verdict⟩

/-! ## Whole sessions -/

end Engine

/-- The rule will not be active again. -/
def Rule.IsSpent (rule : Rule) : Prop :=
  rule.state = .failed ∨ rule.state = .completed

theorem Rule.IsSpent.not_active {rule : Rule} (spent : rule.IsSpent) : rule.state ≠ .active := by
  rcases spent with failed | completed
  · simp [failed]
  · simp [completed]

theorem Rule.isSpent_of_not_active {rule : Rule} (resting : rule.state ≠ .active)
    (running : rule.state ≠ .inactive) : rule.IsSpent := by
  cases known : rule.state with
  | inactive => exact absurd known running
  | active => exact absurd known resting
  | failed => exact .inl known
  | completed => exact .inr known

namespace Engine

variable {σ : Type}

theorem active_of_not_resting {e : Engine σ} {id : ListenerId} (running : ¬Resting e id) :
    ∃ rule, e.rule? id = some rule ∧ rule.state = .active := by
  cases found : e.rule? id with
  | none => exact (running fun _ same => by rw [found] at same; cases same).elim
  | some rule =>
    refine ⟨rule, rfl, Decidable.byContradiction fun resting => running fun _ same => ?_⟩
    rw [found] at same
    cases same
    exact resting

/-- What the journal of an engine tells of a rule that is to run once. -/
structure Sheet (id : ListenerId) (e : Engine σ) : Prop where
  spent : completions id [] e.journal ≠ [] → ∃ rule, e.rule? id = some rule ∧ rule.IsSpent
  shape : Shape id [] (completions id [] e.journal)

namespace Sheet

variable {id : ListenerId} {e e' : Engine σ}

theorem of_same (sheet : Sheet id e)
    (counted : completions id [] e'.journal = completions id [] e.journal)
    (stays : ∀ rule, e.rule? id = some rule → rule.IsSpent → e'.rule? id = some rule) :
    Sheet id e' where
  spent some := by
    obtain ⟨rule, found, spent⟩ := sheet.spent (counted ▸ some)
    exact ⟨rule, stays rule found spent, spent⟩
  shape := by
    rw [counted]
    exact sheet.shape

theorem setup (sheet : Sheet id e) {checked : ListenerId} {e₁ : Engine σ}
    (rewired : Rewired checked e e₁) : Sheet id e₁ := by
  obtain ⟨_, _, events, _, setup, rfl⟩ := rewired
  refine sheet.of_same ?_ fun _ found _ => found
  have none : ∀ event ∈ events, event.completion? id = none :=
    fun event member => Event.completion?_of_isSetup (setup event member) id
  rw [completions_append, completions_of_none none, List.append_nil]

theorem modify (sheet : Sheet id e) (checked : ListenerId) {f : Rule → Rule}
    (stays : ∀ rule, e.rule? checked = some rule → rule.IsSpent → f rule = rule) :
    Sheet id (e.modifyRule checked f) := by
  refine sheet.of_same (by rw [modifyRule_eq]) fun rule found spent => ?_
  by_cases same : id = checked
  · subst same
    rw [rule?_modifyRule_self found, stays rule found spent]
  · rw [rule?_modifyRule_of_ne e same]
    exact found

theorem cascade (sheet : Sheet id e) (atRest : AtRest e) {call : Call} {target : String}
    (oneShot : call.OneShot target) (action : ∀ own ∈ e.action? id, own = call)
    {task : Task} {result : Except ScriptError Unit} (cascade : Cascade task e result e')
    (subscribed : task.Subscribed e.subscriptions) : Sheet id e' := by
  obtain ⟨events, tally⟩ := cascade.tally oneShot
    ⟨atRest.bare, action, by simp [atRest.idle]⟩ subscribed
  have counted : completions id [] e'.journal =
      completions id [] e.journal ++ completions id e.dispatcher.pending events := by
    rw [tally.orderly.journal, completions_append, atRest.shown, atRest.idle]
  -- If the action has completed before, the rule is spent and stays as it is.
  by_cases none : completions id [] e.journal = []
  · rw [none, List.nil_append] at counted
    refine ⟨fun some => ?_, ?_⟩
    · rw [counted] at some
      obtain ⟨rule, found, active⟩ := active_of_not_resting (some <| tally.resting ·)
      obtain ⟨rule', found', follows⟩ := cascade.framed.rules found
      refine ⟨rule', found', Rule.isSpent_of_not_active ?_ (follows.running active)⟩
      exact tally.spent some rule' found'
    · rw [counted, ← atRest.idle]
      exact tally.shape
  · obtain ⟨rule, found, spent⟩ := sheet.spent none
    have resting : Resting e id := by
      intro other same
      rw [found] at same
      cases same
      exact spent.not_active
    rw [tally.resting resting, List.append_nil] at counted
    refine sheet.of_same counted fun other same _ => ?_
    obtain ⟨rule', found', follows⟩ := cascade.framed.rules same
    rw [found', follows.resting (resting other same)]

theorem step (sheet : Sheet id e) (atRest : AtRest e) {call : Call} {target : String}
    (oneShot : call.OneShot target) (action : ∀ own ∈ e.action? id, own = call)
    {checked : List ListenerId} {result : Except ScriptError Unit}
    (step : Step checked e result e') : Sheet id e' := by
  cases step with
  | idle => exact sheet
  | write cascade | check cascade => exact sheet.cascade atRest oneShot action cascade trivial
  | advance cascade =>
    have advanced : Sheet id { e with ticker := e.ticker.advance } := ⟨sheet.spent, sheet.shape⟩
    refine advanced.cascade ⟨atRest.bare, atRest.idle, atRest.shown⟩ oneShot action cascade ?_
    intro callback member
    rwa [Subscriptions.signal_of_mem_callbacks member]
  | activate found inactive rewired _ cascade =>
    refine Sheet.cascade ?_ (atRest.rewired rewired _) oneShot ?_ cascade trivial
    · refine (sheet.setup rewired).modify _ fun rule' found' spent => ?_
      rw [rewired.rule?_eq, found] at found'
      cases found'
      rcases spent with failed | completed
      · rw [inactive] at failed
        cases failed
      · rw [inactive] at completed
        cases completed
    · rwa [← start, action?_start, rewired.action?]
  | giveUp _ _ rewired => exact sheet.setup rewired
  | deactivate _ rewired =>
    exact (sheet.setup rewired).modify _ fun rule _ spent => if_neg spent.not_active

theorem create (id : ListenerId) (config : Config) (foreign : σ) :
    Sheet id (Engine.create config foreign) :=
  ⟨fun some => absurd rfl some, .inl rfl⟩

theorem listen (sheet : Sheet id e) (rule : Rule) : Sheet id (e.addListener (.rule rule)).2 := by
  exact sheet.of_same rfl fun old found _ => rule?_addListener_of_some found _

end Sheet

theorem Reached.sheet {accepted : Reply → Prop} {e : Engine σ} (reached : Reached accepted e)
    {id : ListenerId} {call : Call} {target : String} (oneShot : call.OneShot target)
    (action : ∀ own ∈ e.action? id, own = call) : Sheet id e := by
  have held := reached.invariant (fun _ => True)
    (fun e => AtRest e ∧ ((∀ own ∈ e.action? id, own = call) → Sheet id e))
    (fun _ _ _ _ => trivial) ?_ ?_ ?_
  · exact held.2.2 action
  · exact fun config foreign => ⟨⟨rfl, rfl, rfl⟩, fun _ => .create id config foreign⟩
  · rintro e rule ⟨atRest, sheet⟩ -
    refine ⟨⟨atRest.bare, atRest.idle, atRest.shown⟩, fun action => ?_⟩
    refine (sheet fun own had => ?_).listen rule
    obtain ⟨old, found, rfl⟩ := Option.map_eq_some_iff.1 had
    exact action _ (action?_of_rule? (rule?_addListener_of_some found _))
  · rintro _ e e' result - ⟨atRest, sheet⟩ - step
    refine ⟨atRest.step step, fun action => ?_⟩
    rw [step.action?] at action
    exact (sheet action).step atRest oneShot action step

/-- The action of a rule that is to run once completes at most once, unless it calls the rule back
and its condition has turned true anew by then: then it completes in that callback, and once more
in the action that gave rise to the callback. -/
theorem completes_twice_iff_called_back {accepted : Reply → Prop} {e e₀ : Engine σ}
    (reached : Reached accepted e) {id : ListenerId} {rule : Rule}
    (found : e.rule? id = some rule) (bare : e₀.devices = []) {host : HostId} {script : String}
    (parsed : (e₀.scope host).parseCall script = .ok rule.action)
    (once : rule.action.once = true) :
    (1 < (completions id [] e.journal).length ↔ ∃ queue inner signal,
      completions id [] e.journal = [queue ++ inner ++ [⟨signal, id⟩], queue]) ∧
    (completions id [] e.journal ≠ [] → rule.IsSpent) := by
  obtain ⟨target, oneShot⟩ := oneShot_of_parseCall bare parsed once
  have sheet := reached.sheet oneShot fun own had => by
    rw [action?_of_rule? found] at had
    exact (Option.some.inj had).symm
  refine ⟨⟨fun twice => ?_, ?_⟩, fun some => ?_⟩
  · rcases sheet.shape with none | ⟨chain, one⟩ | ⟨chain, inner, signal, two⟩
    · simp [none] at twice
    · simp [one] at twice
    · exact ⟨chain, inner, signal, two⟩
  · rintro ⟨queue, inner, signal, two⟩
    simp [two]
  · obtain ⟨rule', found', spent⟩ := sheet.spent some
    rw [found] at found'
    cases found'
    exact spent

/-- The third rule of the next session is to run once, and these see to it that its condition falls
and rises again while it does. -/
def meddlers : Engine Unit :=
  create {} ()
  |>.withRule ⟨1⟩ { condition := "(sig Signals.X)", action := "(act Signals.Set 'A' 0)" }
  |>.withRule ⟨1⟩ { condition := "(sig Signals.X)", action := "(act Signals.Set 'B' 100)" }

def relapse : Engine Unit :=
  meddlers.withRule ⟨1⟩
    { condition := "(or (sig Signals.A) (sig Signals.B))"
      action := "(act-once Signals.Set 'X' 100)" }
  |>.afterAll (fun _ => True) 9
    [.set "A" (.number (.ofInt 1)), .set "B" (.number (.ofInt 0)), .activate ⟨1⟩, .activate ⟨2⟩,
      .activate ⟨3⟩]

theorem reached_meddlers : Reached (fun _ => True) meddlers := by
  unfold meddlers
  exact ((Reached.create {} ()).withRule _ _).withRule _ _

theorem reached_relapse : Reached (fun _ => True) relapse := by
  unfold relapse
  exact (reached_meddlers.withRule _ _).afterAll _ _

/-- The rule was compiled from its script. -/
theorem relapse_parsed : ∃ rule, relapse.rule? ⟨3⟩ = some rule ∧ rule.action.once = true ∧
    (meddlers.scope ⟨1⟩).parseCall "(act-once Signals.Set 'X' 100)" = .ok rule.action := by
  have known : (relapse.rule? ⟨3⟩).map (·.action.once) = some true := by decide +kernel
  have unknown : (meddlers.action? ⟨3⟩).isNone := by decide +kernel
  obtain ⟨rule, found, once⟩ := Option.map_eq_some_iff.1 known
  have added := action?_of_rule? found
  unfold relapse at added
  rw [action?_afterAll (reached_meddlers.withRule _ _)] at added
  have parsed := parsed_of_withRule (Option.isNone_iff_eq_none.1 unknown) added
  exact ⟨rule, found, once, parsed⟩

theorem completions_relapse : (completions ⟨3⟩ [] relapse.journal).length = 2 := by
  decide +kernel

/-- An action that is to run once can complete twice. -/
theorem not_completes_at_most_once :
    ¬∀ (e e₀ : Engine Unit) (id : ListenerId) (rule : Rule) (host : HostId) (script : String),
      Reached (fun _ => True) e → e.rule? id = some rule → e₀.devices = [] →
      (e₀.scope host).parseCall script = .ok rule.action → rule.action.once = true →
        (completions id [] e.journal).length ≤ 1 := by
  intro claimed
  obtain ⟨rule, found, once, parsed⟩ := relapse_parsed
  have bare := reached_meddlers.atRest.bare
  have short := claimed relapse meddlers ⟨3⟩ rule ⟨1⟩ _ reached_relapse found bare parsed once
  rw [completions_relapse] at short
  exact absurd short (by decide)

theorem relapse_completes_twice : ∃ queue inner signal,
    completions ⟨3⟩ [] relapse.journal = [queue ++ inner ++ [⟨signal, ⟨3⟩⟩], queue] := by
  obtain ⟨rule, found, once, parsed⟩ := relapse_parsed
  have bare := reached_meddlers.atRest.bare
  refine (completes_twice_iff_called_back reached_relapse found bare parsed once).1.1 ?_
  rw [completions_relapse]
  decide

end Engine

end SignalRules
