import SignalRules.Proofs.Ending
import SignalRules.Proofs.Queue

/-! # Invocations inside each other

The pending queue is meant to be the chain of invocations in progress. It is, until a callback
fails: that clears the queue, although the listeners further up are still running. If one of them
takes no notice of the error and goes on, new invocations nest in its own, which the queue no longer
knows of.
-/

namespace SignalRules

/-- An invocation of a listener that has not returned. -/
structure Invocation where
  callback : Callback
  /-- A callback that was carried out inside it has failed, and the queue was cleared. -/
  broken : Bool
  deriving DecidableEq

namespace Invocation

def fail (invocation : Invocation) : Invocation :=
  { invocation with broken := true }

/-- What is broken stays so. -/
theorem map_fail_map_fail (stack : List Invocation) : (stack.map fail).map fail = stack.map fail :=
  List.map_map

end Invocation

/-- The invocations in progress after an entry, outermost first. -/
def Event.nest (stack : List Invocation) : Event → List Invocation
  | .entered callback _ => stack ++ [⟨callback, false⟩]
  | .left _ (.ok _) _ => stack.dropLast
  | .left _ (.error _) _ => stack.dropLast.map Invocation.fail
  | _ => stack

/-- The invocations in progress after some entries. -/
def stackAfter (stack : List Invocation) (events : List Event) : List Invocation :=
  events.foldl Event.nest stack

theorem stackAfter_append (stack : List Invocation) (first rest : List Event) :
    stackAfter stack (first ++ rest) = stackAfter (stackAfter stack first) rest :=
  List.foldl_append

theorem Event.nest_of_queue? {event : Event} (silent : event.queue? = none)
    (stack : List Invocation) : event.nest stack = stack := by
  cases event with
  | entered | left => cases silent
  | _ => rfl

/-! ## The stack and the queue -/

/-- The queue holds the invocations in which nothing has failed, and these are the innermost. -/
structure Mirrors (stack : List Invocation) (queue : List Callback) : Prop where
  queue_eq : queue = (stack.filter fun i => !i.broken).map Invocation.callback
  outermost : stack.Pairwise fun outer inner => inner.broken = true → outer.broken = true

namespace Mirrors

theorem nil : Mirrors [] [] :=
  ⟨rfl, .nil⟩

theorem push {stack : List Invocation} {queue : List Callback} (mirrors : Mirrors stack queue)
    (callback : Callback) : Mirrors (stack ++ [⟨callback, false⟩]) (queue ++ [callback]) where
  queue_eq := by simp [mirrors.queue_eq]
  outermost := by simp [List.pairwise_append, mirrors.outermost]

theorem fail (stack : List Invocation) : Mirrors (stack.map Invocation.fail) [] where
  queue_eq := by simp [List.filter_eq_nil_iff, Invocation.fail]
  outermost := List.pairwise_map.2 (List.pairwise_of_forall fun _ _ _ => rfl)

/-- What a callback leaves behind. -/
theorem settle {stack stack' : List Invocation} {queue queue' : List Callback}
    (mirrors : Mirrors stack queue)
    (settled : stack' = stack ∧ queue' = queue ∨
      stack' = stack.map Invocation.fail ∧ queue' = []) : Mirrors stack' queue' := by
  rcases settled with ⟨rfl, rfl⟩ | ⟨rfl, rfl⟩
  · exact mirrors
  · exact fail stack

end Mirrors

/-- Entry after entry, the queue mirrors the invocations. -/
def Mirroring (stack : List Invocation) (queue : List Callback) : List Event → Prop
  | [] => Mirrors stack queue
  | event :: events =>
    Mirrors stack queue ∧ Mirroring (event.nest stack) (event.queue?.getD queue) events

namespace Mirroring

variable {stack : List Invocation} {queue : List Callback}

theorem start {events : List Event} (mirroring : Mirroring stack queue events) :
    Mirrors stack queue := by
  cases events with
  | nil => exact mirroring
  | cons _ _ => exact mirroring.1

theorem append_iff {first rest : List Event} :
    Mirroring stack queue (first ++ rest) ↔
      Mirroring stack queue first ∧
        Mirroring (stackAfter stack first) (queueAfter queue first) rest := by
  induction first generalizing stack queue with
  | nil => exact ⟨fun all => ⟨all.start, all⟩, And.right⟩
  | cons event events ih => exact (and_congr_right fun _ => ih).trans and_assoc.symm

theorem of_silent {events : List Event} (silent : ∀ event ∈ events, event.queue? = none)
    (mirrors : Mirrors stack queue) : Mirroring stack queue events := by
  induction events with
  | nil => exact mirrors
  | cons event events ih =>
    have none := silent event List.mem_cons_self
    refine ⟨mirrors, ?_⟩
    rw [Event.nest_of_queue? none, none]
    exact ih fun event member => silent event (.tail _ member)

end Mirroring

/-- Wherever the queue mirrors the invocations in progress, it does so all through these entries. In
the end the same invocations are in progress, and if the queue is not the same it is empty and all
of them are broken. -/
structure Nests (queue : List Callback) (events : List Event) : Prop where
  mirroring : ∀ {stack}, Mirrors stack queue → Mirroring stack queue events
  settled : ∀ {stack}, Mirrors stack queue →
    stackAfter stack events = stack ∧ queueAfter queue events = queue ∨
      stackAfter stack events = stack.map Invocation.fail ∧ queueAfter queue events = []

namespace Nests

variable {queue : List Callback}

theorem of_silent {events : List Event} (silent : ∀ event ∈ events, event.queue? = none) :
    Nests queue events where
  mirroring := .of_silent silent
  settled _ := by
    left
    induction events with
    | nil => exact ⟨rfl, rfl⟩
    | cons event events ih =>
      have none := silent event List.mem_cons_self
      have rest := ih fun event member => silent event (.tail _ member)
      simp only [stackAfter, queueAfter, List.foldl_cons, Event.nest_of_queue? none, none,
        Option.getD_none] at rest ⊢
      exact rest

theorem mirrors {events : List Event} (nests : Nests queue events) {stack : List Invocation}
    (mirrors : Mirrors stack queue) :
    Mirrors (stackAfter stack events) (queueAfter queue events) :=
  mirrors.settle (nests.settled mirrors)

theorem trans {first rest : List Event} (before : Nests queue first)
    (after : Nests (queueAfter queue first) rest) : Nests queue (first ++ rest) where
  mirroring mirrors :=
    Mirroring.append_iff.2 ⟨before.mirroring mirrors, after.mirroring (before.mirrors mirrors)⟩
  settled := by
    intro stack mirrors
    rw [stackAfter_append, queueAfter_append]
    have ends := after.settled (before.mirrors mirrors)
    rcases before.settled mirrors with ⟨sameStack, sameQueue⟩ | ⟨failed, cleared⟩
    · rwa [sameStack, sameQueue] at ends ⊢
    · rw [failed, cleared] at ends ⊢
      right
      rcases ends with same | ⟨failedAgain, clearedStill⟩
      · exact same
      · exact ⟨failedAgain.trans (Invocation.map_fail_map_fail stack), clearedStill⟩

/-- When a callback that was taken up ends, the invocations around it are as they were, or all of
them are broken. -/
theorem leave {callback : Callback} {inner : List Event} (inside : Nests (queue ++ [callback]) inner)
    {d : Dispatcher} (shown : queueAfter (queue ++ [callback]) inner = d.pending)
    (result : Except ScriptError Unit) {stack : List Invocation} (mirrors : Mirrors stack queue) :
    let left := (d.leave callback result).pending
    let outer := (Event.left callback result left).nest
      (stackAfter (stack ++ [⟨callback, false⟩]) inner)
    outer = stack ∧ left = queue ∨ outer = stack.map Invocation.fail ∧ left = [] := by
  have ends := inside.settled (mirrors.push callback)
  rw [shown] at ends
  cases result with
  | ok _ =>
    simp only [Dispatcher.leave, Event.nest]
    rcases ends with ⟨sameStack, sameQueue⟩ | ⟨failed, cleared⟩
    · left
      rw [sameStack, sameQueue, Dispatcher.eraseLast_append_self]
      exact ⟨List.dropLast_concat, rfl⟩
    · right
      rw [failed, cleared]
      exact ⟨by simp, rfl⟩
  | error _ =>
    right
    refine ⟨?_, rfl⟩
    simp only [Event.nest]
    rcases ends with ⟨sameStack, _⟩ | ⟨failed, _⟩
    · simp [sameStack]
    · rw [failed, ← List.map_dropLast, List.dropLast_concat, Invocation.map_fail_map_fail]

/-- A callback that is taken up, with what happens inside. -/
theorem taken {callback : Callback} {inner : List Event} (inside : Nests (queue ++ [callback]) inner)
    {d : Dispatcher} (shown : queueAfter (queue ++ [callback]) inner = d.pending)
    (result : Except ScriptError Unit) :
    Nests queue (.entered callback (queue ++ [callback]) :: inner ++
      [.left callback result (d.leave callback result).pending]) where
  mirroring := by
    intro stack mirrors
    have pushed := mirrors.push callback
    have left := mirrors.settle (inside.leave shown result mirrors)
    exact ⟨mirrors, Mirroring.append_iff.2
      ⟨inside.mirroring pushed, inside.mirrors pushed, left⟩⟩
  settled := by
    intro stack mirrors
    rw [stackAfter_append, queueAfter_append]
    exact inside.leave shown result mirrors

end Nests

namespace Engine

variable {σ α : Type}

/-- Whatever runs are made of, the queue mirrors the invocations in progress. -/
theorem Nests.closed : Closed fun e e' : Engine σ =>
    ∃ events, Orderly e events e' ∧ Nests e.dispatcher.pending events where
  refl _ := ⟨[], .of_same rfl (by simp) (by simp), .of_silent (by simp)⟩
  trans := by
    rintro a b c ⟨first, ab, before⟩ ⟨rest, bc, after⟩
    refine ⟨first ++ rest, ab.trans bc, before.trans ?_⟩
    rwa [ab.shown]
  apart := by
    intro a b apart
    obtain ⟨events, journal, aparts⟩ := apart.journal
    exact ⟨events, .of_same apart.dispatcher journal aparts, .of_silent fun event member =>
      Event.queue?_of_isApart (aparts event member)⟩
  refused refused := ⟨_, .of_refused refused, .of_silent (by simp [Event.queue?])⟩
  taken := by
    rintro e callback result e₁ taken ⟨inner, orderly, inside⟩
    have pushed : (e.takeUp callback).dispatcher.pending = e.dispatcher.pending ++ [callback] :=
      Dispatcher.pending_enter_of_ok taken
    have shown := orderly.shown
    rw [pushed] at inside shown
    exact ⟨_, .of_taken taken orderly, inside.taken shown result⟩

end Engine

/-! ## Whole runs -/

/-- The invocations in progress after some entries, and the queue. -/
structure Accounted (limit : Nat) (events : List Event) : Prop where
  mirrors : Mirrors (stackAfter [] events) (queueAfter [] events)
  /-- A pair runs inside itself only where something has failed inside the outer invocation. -/
  reentered : (stackAfter [] events).Pairwise fun outer inner =>
    outer.callback = inner.callback → outer.broken = true
  /-- Broken invocations are not limited in number. -/
  limited : ((stackAfter [] events).filter fun i => !i.broken).length ≤ limit

theorem Accounted.of_mirrors {limit : Nat} {events : List Event}
    (mirrors : Mirrors (stackAfter [] events) (queueAfter [] events))
    (bounded : Bounded limit (queueAfter [] events)) : Accounted limit events where
  mirrors := mirrors
  reentered := by
    obtain ⟨distinct, _⟩ := bounded
    rw [mirrors.queue_eq, List.Nodup, List.pairwise_map, List.pairwise_filter] at distinct
    refine (distinct.and mirrors.outermost).imp ?_
    rintro outer inner ⟨apart, spread⟩ same
    cases whole : outer.broken with
    | true => rfl
    | false => grind
  limited := by
    have room := bounded.2
    rwa [mirrors.queue_eq, List.length_map] at room

namespace Engine

variable {σ α : Type}

/-- At every point of the run that led to the engine the invocations are accounted for. -/
def Traced (e : Engine σ) : Prop :=
  ∀ before after, e.journal = before ++ after → Accounted e.dispatcher.limit before

theorem Traced.of_nests {e : Engine σ} {config : Config} {foreign : σ} {events : List Event}
    (orderly : Orderly (create config foreign) events e) (nests : Nests [] events) : Traced e := by
  intro before after split
  have whole : events = before ++ after := orderly.journal.symm.trans split
  have bounded := orderly.bounded_prefix (.nil _) whole
  have mirroring := nests.mirroring .nil
  rw [whole, Mirroring.append_iff] at mirroring
  rw [orderly.limit]
  exact .of_mirrors mirroring.2.start bounded

theorem Reachable.traced {e : Engine σ} (reachable : Reachable e) : Traced e := by
  obtain ⟨config, foreign, events, orderly, nests⟩ := reachable.related Nests.closed
  exact .of_nests orderly nests

theorem Reachable.traced_across {e e' : Engine σ} (reachable : Reachable e) {run : Run σ α}
    (across : ∀ {R : Engine σ → Engine σ → Prop}, Closed R → Across R run) {a : α}
    (ran : run e = some (a, e')) : Traced e' := by
  obtain ⟨config, foreign, related⟩ := reachable.related Nests.closed
  obtain ⟨events, orderly, nests⟩ :=
    Nests.closed.trans related (across Nests.closed e a e' ran)
  exact .of_nests orderly nests

/-- At every point of a run, also of one that does not end, the queue holds the invocations in
progress in which nothing has failed. These are within the limit, and none of them has an invocation
of its own pair inside. -/
theorem invocations_traced {e : Engine σ} (reachable : Reachable e) :
    Traced e ∧ ∀ (answer : Request → Except ScriptError Unit) (depth : Nat),
      (∀ program : Program σ α, ∃ a e',
        runProgram (cutOff answer depth) program e = some (a, e') ∧ Traced e') ∧
      ∀ action values, ∃ outcome e',
        perform (cutOff answer depth) action values e = some (outcome, e') ∧ Traced e' := by
  refine ⟨reachable.traced, fun answer depth => ⟨fun program => ?_, fun action values => ?_⟩⟩
  · obtain ⟨a, e', run⟩ := Ends.runProgram (Ends.cutOff answer depth) program e
    refine ⟨a, e', run, reachable.traced_across (fun closed => ?_) run⟩
    exact closed.runProgram (closed.cutOff answer depth) program
  · have serves := Serves.of_ends (Ends.cutOff (σ := σ) answer depth)
    obtain ⟨outcome, e', run⟩ := serves.perform (e := e) trivial action values
    refine ⟨outcome, e', run, reachable.traced_across (fun closed => ?_) run⟩
    exact closed.perform (closed.cutOff answer depth) action values

/-! ## Feedback that is not noticed -/

/-- A listener that fails whenever it is told of anything. -/
def failing : Listener σ :=
  .external "failing" fun _ => .finish (.error (.reported .runtime "broken"))

/-- A listener that has the second listener fail, takes no notice of it, and then has itself told of
a signal again: as often as the foreign state says. -/
def stubborn : Listener Nat :=
  .external "stubborn" fun _ => .inspect fun rounds _ =>
    if rounds = 0 then .finish (.ok ())
    else .update (· - 1) <| .request (.schedule ⟨"B", ⟨2⟩⟩) fun _ =>
      .request (.schedule ⟨"A", ⟨1⟩⟩) fun _ => .finish (.ok ())

def feedback : Engine Nat :=
  (((create { callbackQueueLimit := 2 } 2).addListener stubborn).2.addListener failing).2

theorem reachable_feedback : Reachable feedback :=
  .listen _ (.listen _ (.create _ _))

/-- Three invocations of one pair are in progress, one inside the other, with room for two. -/
theorem feedback_nests :
    ∃ e' : Engine Nat, Reachable e' ∧ e'.dispatcher.limit = 2 ∧
      ∃ before after, e'.journal = before ++ after ∧
        (stackAfter [] before).map Invocation.callback =
          [⟨"A", ⟨1⟩⟩, ⟨"A", ⟨1⟩⟩, ⟨"A", ⟨1⟩⟩] := by
  have answer : (runProgram (handle 8) (Program.ask (.schedule ⟨"A", ⟨1⟩⟩)) feedback).map
      (fun p => (p.2.dispatcher.limit,
        (stackAfter [] (p.2.journal.take 7)).map Invocation.callback)) =
      some (2, [⟨"A", ⟨1⟩⟩, ⟨"A", ⟨1⟩⟩, ⟨"A", ⟨1⟩⟩]) := by decide +kernel
  obtain ⟨⟨_, e'⟩, run, same⟩ := Option.map_eq_some_iff.1 answer
  injection same with limit nested
  exact ⟨e', .program reachable_feedback run, limit, _, _, (List.take_append_drop 7 _).symm, nested⟩

theorem invocations_traced_of_feedback :
    Traced feedback ∧ ∃ result e', runProgram (cutOff (fun _ => .ok ()) 3)
      (Program.ask (.schedule ⟨"A", ⟨1⟩⟩)) feedback = some (result, e') ∧ Traced e' :=
  have traced := invocations_traced reachable_feedback
  ⟨traced.1, (traced.2 (fun _ => .ok ()) 3).1 _⟩

/-- The dispatcher does not keep pairs from running inside themselves, nor the nesting within the
limit. -/
theorem not_feedback_refused :
    ¬(∀ {e : Engine Nat}, Reachable e → ∀ before after, e.journal = before ++ after →
      ((stackAfter [] before).map Invocation.callback).Nodup) ∧
    ¬∀ {e : Engine Nat}, Reachable e → ∀ before after, e.journal = before ++ after →
      (stackAfter [] before).length ≤ e.dispatcher.limit := by
  obtain ⟨e', reachable, limit, before, after, split, nested⟩ := feedback_nests
  constructor
  · intro distinct
    have distinct := distinct reachable before after split
    rw [nested] at distinct
    simp at distinct
  · intro within
    have within := within reachable before after split
    rw [limit, ← List.length_map Invocation.callback, nested] at within
    simp at within

/-- Without a count of its rounds such a listener is told of the signal again and again. -/
def relentless : Listener σ :=
  .external "relentless" fun _ => .request (.schedule ⟨"B", ⟨2⟩⟩) fun _ =>
    .request (.schedule ⟨"A", ⟨1⟩⟩) fun _ => .finish (.ok ())

/-- A listener that always fails leaves the queue empty. -/
theorem schedule_failing {e e' : Engine σ} (callback : Callback) {depth : Nat}
    {result : Except ScriptError Unit} (known : e.listener? callback.listener = some failing)
    (absent : callback ∉ e.dispatcher.pending)
    (room : e.dispatcher.pending.length < e.dispatcher.limit)
    (run : handle depth (.schedule callback) e = some (result, e')) :
    e'.listeners = e.listeners ∧ e'.dispatcher.limit = e.dispatcher.limit ∧
      e'.dispatcher.pending = [] := by
  have accepted := (Dispatcher.enter_eq_ok_iff e.dispatcher callback).2 ⟨absent, room⟩
  obtain ⟨depth, served⟩ := served_of_handle run
  rcases schedule_cases served with ⟨error, refused, _⟩ | ⟨_, e₁, responded, rfl⟩
  · rw [accepted] at refused
    cases refused
  · have stillKnown : (e.takeUp callback).listener? callback.listener = some failing := known
    rw [respond, Run.get_bind_apply, stillKnown] at responded
    cases responded
    exact ⟨rfl, Dispatcher.limit_enter e.dispatcher callback, rfl⟩

/-- Then nothing ends the recursion, although the queue never holds more than two callbacks. -/
theorem relentless_never_ends {e : Engine σ} (first : e.listener? ⟨1⟩ = some relentless)
    (second : e.listener? ⟨2⟩ = some failing) (limit : 2 ≤ e.dispatcher.limit)
    (idle : e.dispatcher.pending = []) (depth : Nat) :
    handle depth (.schedule ⟨"A", ⟨1⟩⟩) e = none := by
  induction depth generalizing e with
  | zero => rfl
  | succ depth ih =>
    rw [Option.eq_none_iff_forall_ne_some]
    rintro ⟨result, e'⟩ run
    rcases schedule_cases run with ⟨error, refused, _⟩ | ⟨taken, e₁, responded, _⟩
    · rw [(Dispatcher.enter_eq_ok_iff _ _).2 ⟨by simp [idle], by simp [idle]; omega⟩] at refused
      cases refused
    · let inside := e.takeUp ⟨"A", ⟨1⟩⟩
      have pushed : inside.dispatcher.pending = [⟨"A", ⟨1⟩⟩] := by
        refine (Dispatcher.pending_enter_of_ok taken).trans ?_
        rw [idle, List.nil_append]
      have room : 2 ≤ inside.dispatcher.limit := by
        rwa [show inside.dispatcher.limit = _ from Dispatcher.limit_enter e.dispatcher _]
      have stillFirst : inside.listener? ⟨1⟩ = some relentless := first
      have stillSecond : inside.listener? ⟨2⟩ = some failing := second
      rw [respond, Run.get_bind_apply, stillFirst] at responded
      obtain ⟨answer, e₂, failed, rest⟩ := Run.bind_eq_some_iff.1 responded
      obtain ⟨listeners, limit₂, idle₂⟩ := schedule_failing ⟨"B", ⟨2⟩⟩ stillSecond
        (by simp [pushed]) (by rwa [pushed]) failed
      obtain ⟨again, e₃, ran, _⟩ := Run.bind_eq_some_iff.1 rest
      have known (id : ListenerId) : e₂.listener? id = e.listener? id := by
        unfold listener?
        rw [listeners]
        rfl
      rw [ih ((known _).trans first) ((known _).trans second) (limit₂ ▸ room) idle₂] at ran
      cases ran

end Engine

end SignalRules
