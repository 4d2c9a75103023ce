import SignalRules.Proofs.Hosting
import SignalRules.Proofs.Nesting

/-! # Propagation among rules

A rule passes on every error that comes up in the course of its action. So nothing goes on after a
setback, and the queue holds the invocations in progress whenever a listener is called. Each
invocation takes a place in the queue then, and the recursion ends for want of room.
-/

namespace SignalRules

/-- A listener was not called, or has failed. -/
def Event.isSetback : Event → Bool
  | .left _ (.error _) _ => true
  | .refused _ _ => true
  | _ => false

/-- A listener was called. -/
def Event.isCall : Event → Bool
  | .entered _ _ => true
  | _ => false

theorem Event.no_setback_of_isApart {event : Event} (apart : event.isApart) :
    event.isSetback = false := by
  cases event with
  | left | refused => cases apart
  | _ => rfl

theorem Event.no_call_of_isApart {event : Event} (apart : event.isApart) :
    event.isCall = false := by
  cases event with
  | entered => cases apart
  | _ => rfl

/-- After a setback no listener is called, and there is no success. -/
structure Halts (result : Except ScriptError Unit) (events : List Event) : Prop where
  noticed : result = .ok () → ∀ event ∈ events, event.isSetback = false
  halted : events.Pairwise fun earlier later => earlier.isSetback = true → later.isCall = false

namespace Halts

variable {result : Except ScriptError Unit}

theorem of_apart {events : List Event} (apart : ∀ event ∈ events, event.isApart) :
    Halts result events where
  noticed _ event member := Event.no_setback_of_isApart (apart event member)
  halted := by
    refine List.Pairwise.imp_of_mem ?_ (List.pairwise_of_forall fun _ _ => trivial)
    exact fun _ member _ _ => Event.no_call_of_isApart (apart _ member)

theorem append {first rest : List Event} (before : Halts (.ok ()) first)
    (after : Halts result rest) : Halts result (first ++ rest) where
  noticed ok event member := by
    rcases List.mem_append.1 member with inFirst | inRest
    · exact before.noticed rfl event inFirst
    · exact after.noticed ok event inRest
  halted := by
    refine List.pairwise_append.2 ⟨before.halted, after.halted, fun earlier member _ _ setback => ?_⟩
    rw [before.noticed rfl earlier member] at setback
    cases setback

/-- What comes after a setback are no calls. -/
theorem followed {result' : Except ScriptError Unit} {first rest : List Event}
    (before : Halts result first) (passed : result' = .ok () → result = .ok ())
    (after : Halts result' rest) (noCall : ∀ event ∈ rest, event.isCall = false) :
    Halts result' (first ++ rest) where
  noticed ok event member := by
    rcases List.mem_append.1 member with inFirst | inRest
    · exact before.noticed (passed ok) event inFirst
    · exact after.noticed ok event inRest
  halted := List.pairwise_append.2
    ⟨before.halted, after.halted, fun _ _ later member _ => noCall later member⟩

end Halts

namespace Engine

variable {σ : Type}

/-! ## Tasks -/

namespace Apart

theorem trans {a b c : Engine σ} (ab : Apart a b) (bc : Apart b c) : Apart a c where
  dispatcher := bc.dispatcher.trans ab.dispatcher
  journal := by
    obtain ⟨first, firstJournal, firstApart⟩ := ab.journal
    obtain ⟨rest, restJournal, restApart⟩ := bc.journal
    refine ⟨first ++ rest, by rw [restJournal, firstJournal, List.append_assoc], ?_⟩
    intro event member
    exact (List.mem_append.1 member).elim (firstApart event) (restApart event)
  rules := ab.rules.trans bc.rules

theorem of_aside {e e' : Engine σ} (aside : Aside e e') : Apart e e' := by
  obtain ⟨_, events, asides, rfl⟩ := aside
  exact ⟨rfl, ⟨events, rfl, fun event member => Event.isApart_of_isAside (asides event member)⟩,
    .of_listeners rfl⟩

theorem of_rewired {id : ListenerId} {e e' : Engine σ} (rewired : Rewired id e e') :
    Apart e e' := by
  obtain ⟨_, _, events, _, setup, rfl⟩ := rewired
  exact ⟨rfl, ⟨events, rfl, fun event member => Event.isApart_of_isSetup (setup event member)⟩,
    .of_listeners rfl⟩

theorem hold (e : Engine σ) (id : ListenerId) (held : Bool) : Apart e (e.hold id held) :=
  .modifyRule (fun _ => by rfl) e id

theorem breakDown (e : Engine σ) (id : ListenerId) (error : ScriptError) :
    Apart e (e.breakDown id error) :=
  .modifyRule (fun _ => by rfl) e id

theorem start (e : Engine σ) (id : ListenerId) : Apart e (e.start id) :=
  .modifyRule (fun _ => by rfl) e id

theorem stop (e : Engine σ) (id : ListenerId) : Apart e (e.stop id) :=
  .modifyRule (fun rule => by split <;> rfl) e id

theorem conclude {e e' : Engine σ} {id : ListenerId} {before : Nat}
    {outcome : Outcome Expr.Completion} {result : Except ScriptError Unit}
    (concluded : (e.note (.fired id outcome)).conclude id before outcome = (result, e')) :
    Apart e e' := by
  obtain ⟨f, settles, rfl⟩ := settled_of_concluded concluded
  refine trans (.note rfl e) (.modifyRule (fun rule => ?_) _ id)
  obtain ⟨_, _, _, same⟩ := settles.parts rule
  rw [same]
  rfl

end Apart

theorem Judged.apart {e e₁ : Engine σ} {id : ListenerId} {rule : Rule} {truth : Outcome Bool}
    (judged : Judged e id rule truth e₁) (held : Bool) : Apart e (e₁.hold id held) :=
  (Apart.of_aside judged.aside).trans (.hold e₁ id held)

/-- What becomes of the queue and of the invocations in progress while a task is carried out. -/
structure Propagation (e : Engine σ) (result : Except ScriptError Unit) (events : List Event)
    (e' : Engine σ) : Prop where
  orderly : Orderly e events e'
  nests : Nests e.dispatcher.pending events
  halts : Halts result events

namespace Propagation

variable {result : Except ScriptError Unit}

theorem of_apart {e e' : Engine σ} (apart : Apart e e') :
    ∃ events, (∀ event ∈ events, event.isApart) ∧ Propagation e result events e' := by
  obtain ⟨events, journal, aparts⟩ := apart.journal
  refine ⟨events, aparts, .of_same apart.dispatcher journal aparts, .of_silent ?_,
    .of_apart aparts⟩
  exact fun event member => Event.queue?_of_isApart (aparts event member)

theorem append {a b c : Engine σ} {first rest : List Event}
    (before : Propagation a (.ok ()) first b) (after : Propagation b result rest c) :
    Propagation a result (first ++ rest) c where
  orderly := before.orderly.trans after.orderly
  nests := before.nests.trans (before.orderly.shown ▸ after.nests)
  halts := before.halts.append after.halts

theorem preceded {a b c : Engine σ} {events : List Event} (apart : Apart a b)
    (after : Propagation b result events c) : ∃ events, Propagation a result events c := by
  obtain ⟨_, _, before⟩ := of_apart apart
  exact ⟨_, before.append after⟩

theorem followed {a b c : Engine σ} {result' : Except ScriptError Unit} {events : List Event}
    (before : Propagation a result events b) (apart : Apart b c)
    (passed : result' = .ok () → result = .ok ()) : ∃ events, Propagation a result' events c := by
  obtain ⟨_, aparts, after⟩ := of_apart apart
  refine ⟨_, before.orderly.trans after.orderly,
    before.nests.trans (before.orderly.shown ▸ after.nests),
    before.halts.followed passed after.halts ?_⟩
  exact fun event member => Event.no_call_of_isApart (aparts event member)

theorem refused {e : Engine σ} {callback : Callback} {error : DispatchError}
    (verdict : (e.dispatcher.enter callback).2 = .error error) :
    Propagation e (.error (.dispatch error)) [.refused callback error] (e.refuse callback error) where
  orderly := .of_refused verdict
  nests := .of_silent (by simp [Event.queue?])
  halts := ⟨nofun, by simp⟩

theorem taken {e e₁ : Engine σ} {callback : Callback} {inner : List Event}
    (verdict : (e.dispatcher.enter callback).2 = .ok ())
    (inside : Propagation (e.takeUp callback) result inner e₁) :
    ∃ events, Propagation e result events (e₁.leave callback result) := by
  have pushed : (e.takeUp callback).dispatcher.pending = e.dispatcher.pending ++ [callback] :=
    Dispatcher.pending_enter_of_ok verdict
  have nests := inside.nests
  have shown := inside.orderly.shown
  rw [pushed] at nests shown
  have called : Halts (.ok ()) [.entered callback (e.dispatcher.pending ++ [callback])] :=
    ⟨by simp [Event.isSetback], by simp⟩
  refine ⟨_, .of_taken verdict inside.orderly, nests.taken shown result, ?_⟩
  refine (called.append inside.halts).followed id ⟨?_, by simp⟩ (by simp [Event.isCall])
  rintro rfl event member
  cases List.mem_singleton.1 member
  rfl

end Propagation

theorem Apart.propagation {e e' : Engine σ} (apart : Apart e e')
    (result : Except ScriptError Unit) : ∃ events, Propagation e result events e' := by
  obtain ⟨events, _, propagation⟩ := Propagation.of_apart apart
  exact ⟨events, propagation⟩

/-- Among rules everything halts at the first setback. -/
theorem Cascade.propagation {task : Task} {e e' : Engine σ} {result : Except ScriptError Unit}
    (cascade : Cascade task e result e') : ∃ events, Propagation e result events e' := by
  induction cascade with
  | asleep => exact Apart.propagation (.of_same rfl rfl rfl) _
  | unclear judged => exact (Apart.of_aside judged.aside).propagation _
  | broken judged => exact ((Apart.of_aside judged.aside).trans (.breakDown _ _ _)).propagation _
  | steady judged _ => exact (judged.apart _).propagation _
  | tried judged _ attempt concluded =>
    have attempted := (judged.apart true).trans (.of_aside attempt.aside)
    exact (attempted.trans (.conclude concluded)).propagation _
  | wrote judged _ writing _ aside outcome_eq concluded ih =>
    obtain ⟨_, inside⟩ := ih
    obtain ⟨_, written⟩ :=
      inside.preceded ((judged.apart true).trans (.of_aside writing.aside))
    refine written.followed ((Apart.of_aside aside).trans (.conclude concluded)) ?_
    rintro rfl
    exact written_of_concluded (outcome_eq ▸ concluded)
  | unchanged =>
    refine Apart.propagation ?_ _
    exact .of_same rfl rfl rfl
  | changed _ _ ih =>
    obtain ⟨_, inside⟩ := ih
    refine Propagation.preceded ?_ inside
    exact .of_same rfl rfl rfl
  | nil => exact Apart.propagation (.of_same rfl rfl rfl) _
  | cons _ _ first rest =>
    obtain ⟨_, first⟩ := first
    obtain ⟨_, rest⟩ := rest
    exact ⟨_, first.append rest⟩
  | stop _ first => exact first
  | refused verdict => exact ⟨_, .refused verdict⟩
  | taken verdict _ ih =>
    obtain ⟨_, inside⟩ := ih
    exact inside.taken verdict

theorem Step.propagation {checked : List ListenerId} {e e' : Engine σ}
    {result : Except ScriptError Unit} (step : Step checked e result e') :
    ∃ events, Propagation e result events e' := by
  cases step with
  | idle => exact Apart.propagation (.of_same rfl rfl rfl) _
  | write cascade | check cascade => exact cascade.propagation
  | advance cascade =>
    obtain ⟨_, inside⟩ := cascade.propagation
    refine Propagation.preceded ?_ inside
    exact .of_same rfl rfl rfl
  | activate _ _ rewired _ cascade =>
    obtain ⟨_, inside⟩ := cascade.propagation
    exact inside.preceded ((Apart.of_rewired rewired).trans (.start _ _))
  | giveUp _ _ rewired => exact (Apart.of_rewired rewired).propagation _
  | deactivate _ rewired => exact ((Apart.of_rewired rewired).trans (.stop _ _)).propagation _

/-! ## Termination -/

/-- Where all listeners are rules, callbacks nest no deeper than this. -/
structure Roomy (slots : Nat) (e : Engine σ) : Prop where
  among : AmongRules e
  room : e.dispatcher.limit ≤ e.dispatcher.pending.length + slots

theorem Ends.runProgram_quiet {α : Type} {handler : Handler σ} {program : Program σ α}
    (quiet : program.Quiet) (e : Engine σ) : Ends (Engine.runProgram handler program) e := by
  induction quiet generalizing e with
  | finish a => exact pure a e
  | inspect _ ih => exact get (ih _ _ e)
  | update _ ih => exact after rfl (ih _)
  | remark _ ih => exact after rfl (ih _)

theorem Serves.of_sound {handler : Handler σ} {slots : Nat}
    (sound : ∀ callback, Sound (Roomy slots) (handler (.schedule callback))) :
    Serves handler (Roomy slots) where
  schedule := sound
  device roomy member action values :=
    Ends.runProgram_quiet (roomy.among.devices _ member action values) _
  same := by
    rintro e e' ⟨⟨rules, quiet⟩, room⟩ dispatcher devices listeners
    have known (id : ListenerId) : e'.listener? id = e.listener? id := by
      unfold listener?
      rw [listeners]
    refine ⟨⟨fun found => rules (known _ ▸ found), devices ▸ quiet⟩, ?_⟩
    rw [dispatcher]
    exact room
  modifyRule roomy id f :=
    ⟨roomy.among.modifyRule id f, by rw [dispatcher_modifyRule]; exact roomy.room⟩

/-- A callback that is taken up leaves less room to those that it gives rise to. -/
theorem Roomy.takeUp {slots : Nat} {e : Engine σ} {callback : Callback}
    (roomy : Roomy (slots + 1) e) (taken : (e.dispatcher.enter callback).2 = .ok ()) :
    Roomy slots (e.takeUp callback) where
  among := roomy.among.of_framed (.takeUp e callback)
  room := by
    have pushed : (e.takeUp callback).dispatcher.pending = e.dispatcher.pending ++ [callback] :=
      Dispatcher.pending_enter_of_ok taken
    have sameLimit : (e.takeUp callback).dispatcher.limit = e.dispatcher.limit :=
      Dispatcher.limit_enter e.dispatcher callback
    have room := roomy.room
    rw [pushed, sameLimit, List.length_append, List.length_singleton]
    omega

theorem Roomy.scheduled {slots depth : Nat} {e e' : Engine σ} {callback : Callback}
    (roomy : Roomy slots e) (run : handle depth (.schedule callback) e = some (.ok (), e')) :
    Roomy slots e' := by
  have cascade := handle_follows depth callback e e' _ roomy.among run
  refine ⟨roomy.among.of_framed cascade.framed, ?_⟩
  rw [cascade.framed.limit, (cascade.smooth rfl).1]
  exact roomy.room

theorem handle_sound {slots depth : Nat} (deep : slots < depth) (callback : Callback) :
    Sound (Roomy (σ := σ) slots) (handle depth (.schedule callback)) := by
  -- each callback that is taken up takes one slot and one level of depth
  induction slots generalizing depth callback with
  | zero =>
    obtain ⟨depth, rfl⟩ : ∃ n, depth = n + 1 := ⟨depth - 1, by omega⟩
    refine fun e roomy => ⟨Ends.schedule fun taken => ?_, fun e' => roomy.scheduled⟩
    have full := ((Dispatcher.enter_eq_ok_iff _ _).1 taken).2
    have room := roomy.room
    omega
  | succ slots ih =>
    obtain ⟨depth, rfl⟩ : ∃ n, depth = n + 1 := ⟨depth - 1, by omega⟩
    have serves : Serves (handle (σ := σ) depth) (Roomy slots) :=
      .of_sound fun callback => ih (by omega) callback
    refine fun e roomy => ⟨Ends.schedule fun taken => ?_, fun e' => roomy.scheduled⟩
    have inside := roomy.takeUp taken
    refine Ends.get ?_
    split
    · exact .pure _ _
    · exact serves.check inside _
    · rename_i known
      obtain ⟨_, same⟩ := inside.among.listeners known
      cases same

theorem Hosted.roomy {e : Engine σ} (hosted : Hosted e) : Roomy e.dispatcher.limit e :=
  ⟨hosted.among, by rw [hosted.idle]; simp⟩

theorem Hosted.serves {e : Engine σ} {depth : Nat} (deep : e.dispatcher.limit < depth) :
    Serves (handle (σ := σ) depth) (Roomy e.dispatcher.limit) :=
  .of_sound (handle_sound deep)

theorem Hosted.tick_ends {e : Engine σ} (hosted : Hosted e) {depth : Nat}
    (deep : e.dispatcher.limit < depth) (ids : List ListenerId) :
    Ends (Book.tick.go (handle depth) ids) e := by
  induction ids generalizing e with
  | nil => exact .pure _ e
  | cons id ids ih =>
    rw [Book.tick.go]
    refine ((Hosted.serves deep).check hosted.roomy id).bind fun result e₁ ran => ?_
    have served : handle (depth + 1) (.check id) e = some (result, e₁) := ran
    have sameLimit := ((handle_follows depth).check hosted.among ran).framed.limit
    have rest := ih (hosted.handled served) (sameLimit ▸ deep)
    cases result with
    | ok _ => exact rest
    | error _ => exact rest.bind fun _ _ _ => .pure _ _

theorem Hosted.command_ends {e : Engine σ} (hosted : Hosted e) {depth : Nat}
    (deep : e.dispatcher.limit + 2 ≤ depth) (command : Command) : Ends (command.run depth) e := by
  obtain ⟨depth, rfl⟩ : ∃ n, depth = n + 1 := ⟨depth - 1, by omega⟩
  have serves : Serves (handle (σ := σ) depth) (Roomy e.dispatcher.limit) :=
    Hosted.serves (by omega)
  cases command with
  | set name value =>
    have served : Ends (handle (depth + 1) (.set name value)) e := by
      rw [handle, serve]
      split
      · split
        · exact serves.setGlobal hosted.roomy name value
        · exact .pure _ e
      · exact .pure _ e
    exact served.bind fun _ _ _ => .pure _ _
  | advance =>
    exact Ends.bind (serves.advanceTicker hosted.roomy) fun _ _ _ => .pure _ _
  | activate id => exact Ends.bind (serves.activate hosted.roomy id) fun _ _ _ => .pure _ _
  | deactivate id =>
    have served : Ends (handle (depth + 1) (.deactivate id)) e :=
      (Ends.deactivate id e).bind fun _ _ _ => .pure _ _
    exact served.bind fun _ _ _ => .pure _ _
  | check id => exact Ends.bind (serves.check hosted.roomy id) fun _ _ _ => .pure _ _
  | tick book =>
    exact (hosted.tick_ends (by omega) book.rules).bind fun _ _ _ => .pure _ _

theorem Refines.tick {depth deeper : Nat} (le : depth ≤ deeper) (ids : List ListenerId) :
    Refines (Book.tick.go (Engine.handle (σ := σ) depth) ids)
      (Book.tick.go (Engine.handle deeper) ids) := by
  induction ids with
  | nil => exact refl _
  | cons id ids ih =>
    refine bind (check (fun request => handle le request) id) fun result => ?_
    cases result with
    | ok _ => exact ih
    | error _ => exact bind ih fun _ => refl _

theorem Refines.command {depth deeper : Nat} (le : depth ≤ deeper) (command : Command) :
    Refines (command.run (σ := σ) depth) (command.run deeper) := by
  cases command with
  | tick book => exact bind (tick le book.rules) fun _ => refl _
  | _ => exact bind (handle le _) fun _ => refl _

end Engine

/-! ## Commands -/

/-- How one part of a command proceeds. -/
structure Propagates (limit : Nat) (result : Except ScriptError Unit) (events : List Event) :
    Prop where
  /-- When a listener is called, the queue is the chain of invocations in progress. -/
  queue_eq : ∀ {before callback queue after}, events = before ++ .entered callback queue :: after →
    queue = (stackAfter [] before).map Invocation.callback ++ [callback]
  bounded : ∀ {callback queue}, .entered callback queue ∈ events → Bounded limit queue
  halts : Halts result events
  finished : stackAfter [] events = []

theorem stackAfter_unbroken {stack : List Invocation} {events : List Event}
    (whole : ∀ invocation ∈ stack, invocation.broken = false)
    (none : ∀ event ∈ events, event.isSetback = false) :
    ∀ invocation ∈ stackAfter stack events, invocation.broken = false := by
  induction events generalizing stack with
  | nil => exact whole
  | cons event events ih =>
    refine ih (fun invocation member => ?_) fun event member => none event (.tail _ member)
    have smooth := none event List.mem_cons_self
    cases event with
    | entered callback queue =>
      rcases List.mem_append.1 member with old | new
      · exact whole invocation old
      · cases List.mem_singleton.1 new
        rfl
    | left callback result queue =>
      cases result with
      | ok _ => exact whole invocation (List.dropLast_subset _ member)
      | error _ => cases smooth
    | _ => exact whole invocation member

namespace Engine

variable {σ : Type}

theorem Propagation.propagates {e e' : Engine σ} {result : Except ScriptError Unit}
    {events : List Event} (propagation : Propagation e result events e')
    (idle : e.dispatcher.pending = []) : Propagates e.dispatcher.limit result events where
  queue_eq := by
    rintro before callback queue after rfl
    have mirroring := (idle ▸ propagation.nests).mirroring .nil
    rw [Mirroring.append_iff] at mirroring
    have mirrors := mirroring.2.2.start
    have smooth : ∀ event ∈ before, event.isSetback = false := by
      intro event member
      have halted := (List.pairwise_append.1 propagation.halts.halted).2.2 event member _
        List.mem_cons_self
      cases setback : event.isSetback with
      | false => rfl
      | true => cases halted setback
    have whole : ∀ i ∈ stackAfter [] before, i.broken = false :=
      stackAfter_unbroken (by simp) smooth
    have kept : (stackAfter [] before).filter (fun i => !i.broken) = stackAfter [] before :=
      List.filter_eq_self.2 fun i member => by simp [whole i member]
    have same := mirrors.queue_eq
    simpa [Event.nest, Event.queue?, kept] using same
  bounded := by
    intro callback queue member
    refine propagation.orderly.bounded (idle ▸ .nil _) queue ?_
    exact List.mem_filterMap.2 ⟨_, member, rfl⟩
  halts := propagation.halts
  finished := by
    rcases (idle ▸ propagation.nests).settled .nil with ⟨same, _⟩ | ⟨failed, _⟩
    · exact same
    · exact failed

theorem Steps.propagate {e e' : Engine σ} {results : List (Except ScriptError Unit)}
    (steps : Steps e results e') (idle : e.dispatcher.pending = []) :
    e'.dispatcher.pending = [] ∧ ∃ parts : List (Except ScriptError Unit × List Event),
      parts.map Prod.fst = results ∧ e'.journal = e.journal ++ parts.flatMap Prod.snd ∧
        ∀ part ∈ parts, Propagates e.dispatcher.limit part.1 part.2 := by
  induction steps with
  | nil => exact ⟨idle, [], rfl, by simp, by simp⟩
  | cons step _ ih =>
    rename_i result results _
    obtain ⟨events, propagation⟩ := step.propagation
    have orderly := propagation.orderly
    have idle₁ := List.isEmpty_iff.1 (orderly.idle (List.isEmpty_iff.2 idle))
    obtain ⟨idle', parts, rfl, journal, rest⟩ := ih idle₁
    refine ⟨idle', (result, events) :: parts, rfl, ?_, ?_⟩
    · rw [journal, orderly.journal, List.flatMap_cons, List.append_assoc]
    · rw [List.forall_mem_cons]
      exact ⟨propagation.propagates idle, orderly.limit ▸ rest⟩

/-- Among rules every command ends, requests nesting no more deeply than the queue is long and two
more; nothing is pending then. In each part of it the queue is the chain of invocations in progress
whenever a rule is called, within the limit and without repetition, and after a setback no rule is
called any more. -/
theorem propagation_ends {e : Engine σ} (hosted : Hosted e) (command : Command) :
    ∃ reply e',
      (∀ depth, e.dispatcher.limit + 2 ≤ depth → command.run depth e = some (reply, e')) ∧
      (∀ depth answer, command.run depth e = some answer → answer = (reply, e')) ∧
      e'.dispatcher.isIdle ∧ ∃ parts : List (Except ScriptError Unit × List Event),
        reply.Tells (parts.map Prod.fst) ∧ e'.journal = e.journal ++ parts.flatMap Prod.snd ∧
        ∀ part ∈ parts, Propagates e.dispatcher.limit part.1 part.2 := by
  obtain ⟨reply, e', run⟩ := hosted.command_ends (Nat.le_refl _) command
  obtain ⟨results, steps, told⟩ := command_steps hosted.among run
  obtain ⟨idle, parts, rfl, journal, propagate⟩ := steps.propagate hosted.idle
  refine ⟨reply, e', fun depth deep => Refines.command deep command _ _ _ run, ?_,
    List.isEmpty_iff.2 idle, parts, told, journal, propagate⟩
  rintro depth ⟨reply', e''⟩ ran
  have deeper := Refines.command (Nat.le_add_right depth (e.dispatcher.limit + 2)) command _ _ _ ran
  have enough := Refines.command (Nat.le_add_left (e.dispatcher.limit + 2) depth) command _ _ _ run
  rw [enough] at deeper
  injection deeper with same
  exact same.symm

/-- Two rules that feed each other, with room for two callbacks. -/
def echo : Engine Unit :=
  create { callbackQueueLimit := 2 } ()
  |>.withRule ⟨1⟩
    { condition := "(sig Signals.A)", action := "(act Signals.Set 'B' (sig Signals.A))" }
  |>.withRule ⟨1⟩
    { condition := "(sig Signals.B)", action := "(act Signals.Set 'A' (add (sig Signals.B) 100))" }
  |>.afterAll (fun _ => True) 4 [.activate ⟨1⟩, .activate ⟨2⟩]

theorem hosted_echo : Hosted echo := by
  have reached : Reached (fun _ => True) echo := by
    unfold echo
    exact (((Reached.create _ ()).withRule _ _).withRule _ _).afterAll _ _
  exact reached.hosted

/-- The second rule is called inside the first one, and the call that would come next is refused. -/
theorem echo_propagation_ends : ∃ reply e', ∃ parts : List (Except ScriptError Unit × List Event),
    (∀ depth, 4 ≤ depth →
      (Command.set "A" (.number (.ofInt 1))).run depth echo = some (reply, e')) ∧
    ¬reply.Succeeded ∧ e'.dispatcher.isIdle ∧ reply.Tells (parts.map Prod.fst) ∧
    ∀ part ∈ parts, Propagates 2 part.1 part.2 := by
  obtain ⟨reply, e', enough, _, idle, parts, told, _, propagate⟩ :=
    propagation_ends hosted_echo (.set "A" (.number (.ofInt 1)))
  have known : ((Command.set "A" (.number (.ofInt 1))).run 4 echo).map (fun answer =>
      decide answer.1.Succeeded) = some false := by decide +kernel
  have limit : echo.dispatcher.limit = 2 := by decide +kernel
  rw [limit] at enough propagate
  rw [enough 4 (Nat.le_refl _), Option.map_some, Option.some.injEq, decide_eq_false_iff_not] at known
  exact ⟨reply, e', parts, enough, known, idle, told, propagate⟩

end Engine

end SignalRules
