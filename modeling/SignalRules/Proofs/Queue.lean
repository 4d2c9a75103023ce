import SignalRules.Proofs.Running

/-! # The discipline of the pending queue

Listeners may make any requests while they run, pass on the errors they get or ignore them, and so
push, pop and clear the queue behind the back of the callback that is being carried out. The queue
stays without duplicates and within its limit all the same, and a callback leaves it as it was or
empty.

The journal shows the queue whenever it changes, so what holds of the queues in the journal holds
at every point of a run.
-/

namespace SignalRules

/-- The pending queue that an entry shows. -/
def Event.queue? : Event → Option (List Callback)
  | .entered _ pending => some pending
  | .left _ _ pending => some pending
  | _ => none

/-- A listener that was called has returned an error. -/
def Event.isFailure : Event → Bool
  | .left _ (.error _) _ => true
  | _ => false

/-- The queue after some entries, the last that they show. -/
def queueAfter (pending : List Callback) (events : List Event) : List Callback :=
  events.foldl (fun queue event => event.queue?.getD queue) pending

/-- No callback is there twice, and there are no more than the limit. -/
def Bounded (limit : Nat) (queue : List Callback) : Prop :=
  queue.Nodup ∧ queue.length ≤ limit

theorem Bounded.nil (limit : Nat) : Bounded limit [] :=
  ⟨List.nodup_nil, Nat.zero_le _⟩

theorem Bounded.push {limit : Nat} {queue : List Callback} {callback : Callback}
    (bounded : Bounded limit queue) (absent : callback ∉ queue) (room : queue.length < limit) :
    Bounded limit (queue ++ [callback]) := by
  refine ⟨?_, by rwa [List.length_append]⟩
  rw [List.nodup_append]
  refine ⟨bounded.1, by simp, ?_⟩
  rintro a inside b other rfl
  exact absent (List.mem_singleton.1 other ▸ inside)

theorem queueAfter_append (pending : List Callback) (first rest : List Event) :
    queueAfter pending (first ++ rest) = queueAfter (queueAfter pending first) rest :=
  List.foldl_append

theorem Event.queue?_of_isApart {event : Event} (apart : event.isApart) : event.queue? = none := by
  cases event with
  | entered | left => cases apart
  | _ => rfl

theorem queueAfter_of_isApart {events : List Event} (apart : ∀ event ∈ events, event.isApart)
    (pending : List Callback) : queueAfter pending events = pending := by
  induction events with
  | nil => rfl
  | cons event events ih =>
    simp only [queueAfter, List.foldl_cons,
      Event.queue?_of_isApart (apart event List.mem_cons_self), Option.getD_none]
    exact ih fun event member => apart event (List.mem_cons_of_mem _ member)

/-- The queue is the first one or one of those that are shown. -/
theorem queueAfter_mem (pending : List Callback) (events : List Event) :
    queueAfter pending events = pending ∨
      queueAfter pending events ∈ events.filterMap Event.queue? := by
  induction events generalizing pending with
  | nil => exact .inl rfl
  | cons event events ih =>
    simp only [queueAfter, List.foldl_cons, List.filterMap_cons] at ih ⊢
    cases shown : event.queue? with
    | none => simpa [shown] using ih pending
    | some queue =>
      rcases ih queue with same | member
      · exact .inr (by simp [same])
      · exact .inr (by simp [member])

namespace Engine

variable {σ α : Type}

theorem pending_leave_ok {e : Engine σ} {callback : Callback} {queue : List Callback}
    (inside : e.dispatcher.pending = queue ++ [callback]) :
    (e.leave callback (.ok ())).dispatcher.pending = queue := by
  change Dispatcher.eraseLast callback e.dispatcher.pending = queue
  rw [inside, Dispatcher.eraseLast_append_self]

/-- A callback ends with the queue that it began with, or with none if its chain was dropped. -/
theorem pending_leave {e : Engine σ} {callback : Callback} {result : Except ScriptError Unit}
    {queue : List Callback}
    (inside : e.dispatcher.pending = queue ++ [callback] ∨ e.dispatcher.pending = []) :
    (e.leave callback result).dispatcher.pending = queue ∨
      (e.leave callback result).dispatcher.pending = [] := by
  cases result with
  | error _ => exact .inr rfl
  | ok _ =>
    rcases inside with kept | dropped
    · exact .inl (pending_leave_ok kept)
    · right
      change Dispatcher.eraseLast callback e.dispatcher.pending = []
      rw [dropped]
      rfl

/-! ## What every run keeps -/

/-- Between the two engines, with these new entries in the journal, the queue was disciplined. -/
structure Orderly (e : Engine σ) (events : List Event) (e' : Engine σ) : Prop where
  journal : e'.journal = e.journal ++ events
  limit : e'.dispatcher.limit = e.dispatcher.limit
  shown : queueAfter e.dispatcher.pending events = e'.dispatcher.pending
  keptOrDropped : e'.dispatcher.pending = e.dispatcher.pending ∨ e'.dispatcher.pending = []
  kept : (∀ event ∈ events, ¬event.isFailure) → e'.dispatcher.pending = e.dispatcher.pending
  bounded : Bounded e.dispatcher.limit e.dispatcher.pending →
    ∀ queue ∈ events.filterMap Event.queue?, Bounded e.dispatcher.limit queue

namespace Orderly

theorem of_same {e e' : Engine σ} {events : List Event} (dispatcher : e'.dispatcher = e.dispatcher)
    (journal : e'.journal = e.journal ++ events) (apart : ∀ event ∈ events, event.isApart) :
    Orderly e events e' where
  journal := journal
  limit := by rw [dispatcher]
  shown := by rw [queueAfter_of_isApart apart, dispatcher]
  keptOrDropped := .inl (by rw [dispatcher])
  kept _ := by rw [dispatcher]
  bounded := by
    intro _ queue member
    obtain ⟨event, inside, shown⟩ := List.mem_filterMap.1 member
    rw [Event.queue?_of_isApart (apart event inside)] at shown
    cases shown

theorem of_apart {e e' : Engine σ} (apart : Apart e e') : ∃ events, Orderly e events e' := by
  obtain ⟨events, journal, aparts⟩ := apart.journal
  exact ⟨events, of_same apart.dispatcher journal aparts⟩

theorem trans {a b c : Engine σ} {first rest : List Event} (ab : Orderly a first b)
    (bc : Orderly b rest c) : Orderly a (first ++ rest) c where
  journal := by rw [bc.journal, ab.journal, List.append_assoc]
  limit := bc.limit.trans ab.limit
  shown := by rw [queueAfter_append, ab.shown, bc.shown]
  keptOrDropped := by
    rcases bc.keptOrDropped with kept | dropped
    · rw [kept]
      exact ab.keptOrDropped
    · exact .inr dropped
  kept := by
    intro none
    rw [bc.kept fun event member => none event (List.mem_append_right _ member)]
    exact ab.kept fun event member => none event (List.mem_append_left _ member)
  bounded := by
    intro start queue member
    rw [List.filterMap_append, List.mem_append] at member
    rcases member with member | member
    · exact ab.bounded start queue member
    · have middle : Bounded b.dispatcher.limit b.dispatcher.pending := by
        rw [ab.limit]
        rcases ab.keptOrDropped with kept | dropped
        · rwa [kept]
        · exact dropped ▸ .nil _
      exact ab.limit ▸ bc.bounded middle queue member

theorem of_refused {e : Engine σ} {callback : Callback} {error : DispatchError}
    (refused : (e.dispatcher.enter callback).2 = .error error) :
    Orderly e [.refused callback error] (e.refuse callback error) := by
  have pending := Dispatcher.pending_enter_of_error refused
  exact
    { journal := rfl
      limit := Dispatcher.limit_enter e.dispatcher callback
      shown := pending.symm
      keptOrDropped := .inl pending
      kept := fun _ => pending
      bounded := fun _ _ member => by cases member }

theorem of_taken {e e₁ : Engine σ} {callback : Callback} {result : Except ScriptError Unit}
    {inner : List Event} (taken : (e.dispatcher.enter callback).2 = .ok ())
    (orderly : Orderly (e.takeUp callback) inner e₁) :
    Orderly e
      (.entered callback (e.dispatcher.pending ++ [callback]) :: inner ++
        [.left callback result (e₁.leave callback result).dispatcher.pending])
      (e₁.leave callback result) := by
  obtain ⟨absent, room⟩ := (Dispatcher.enter_eq_ok_iff _ _).1 taken
  have pushed : (e.takeUp callback).dispatcher.pending = e.dispatcher.pending ++ [callback] :=
    Dispatcher.pending_enter_of_ok taken
  have sameLimit : (e.takeUp callback).dispatcher.limit = e.dispatcher.limit :=
    Dispatcher.limit_enter e.dispatcher callback
  have left : (e₁.leave callback result).dispatcher.pending = e.dispatcher.pending ∨
      (e₁.leave callback result).dispatcher.pending = [] :=
    pending_leave (pushed ▸ orderly.keptOrDropped)
  exact
    { journal := by
        change e₁.journal ++ _ = _
        rw [orderly.journal]
        change (e.journal ++ [Event.entered callback (e.takeUp callback).dispatcher.pending]) ++
          inner ++ _ = _
        simp [pushed, leave, note]
      limit := by
        rw [← sameLimit, ← orderly.limit]
        exact Dispatcher.limit_leave _ _ _
      shown := by simp [queueAfter, Event.queue?]
      keptOrDropped := left
      kept := by
        intro none
        have inside := orderly.kept fun event member => none event (by simp [member])
        cases result with
        | ok _ => exact pending_leave_ok (inside.trans pushed)
        | error error => exact absurd rfl (none _ (List.mem_append_right _ List.mem_cons_self))
      bounded := by
        intro bounded queue member
        simp only [List.cons_append, List.filterMap_cons, Event.queue?, List.filterMap_append,
          List.filterMap_nil, List.mem_cons, List.mem_append, List.not_mem_nil, or_false] at member
        rcases member with rfl | member | rfl
        · exact bounded.push absent room
        · have middle := orderly.bounded
          rw [pushed, sameLimit] at middle
          exact middle (bounded.push absent room) queue member
        · rcases left with same | dropped
          · rwa [same]
          · exact dropped ▸ .nil _ }

/-- Orderly runs are closed under everything that runs are made of. -/
theorem closed : Closed fun e e' : Engine σ => ∃ events, Orderly e events e' where
  refl _ := of_apart (.of_same rfl rfl rfl)
  trans := by
    rintro a b c ⟨_, ab⟩ ⟨_, bc⟩
    exact ⟨_, ab.trans bc⟩
  apart := of_apart
  refused refused := ⟨_, of_refused refused⟩
  taken := by
    rintro _ _ _ _ taken ⟨_, orderly⟩
    exact ⟨_, of_taken taken orderly⟩

end Orderly

/-! ## One callback -/

/-- What carrying out one callback does to the pending queue, given the entries it makes in the
journal. -/
structure Discipline (e : Engine σ) (callback : Callback) (result : Except ScriptError Unit)
    (events : List Event) (e' : Engine σ) : Prop where
  journal : e'.journal = e.journal ++ events
  /-- The journal leaves no change of the queue out. -/
  shown : queueAfter e.dispatcher.pending events = e'.dispatcher.pending
  bounded : Bounded e.dispatcher.limit e.dispatcher.pending →
    ∀ before after, events = before ++ after →
      Bounded e.dispatcher.limit (queueAfter e.dispatcher.pending before)
  keptOrDropped : e'.dispatcher.pending = e.dispatcher.pending ∨ e'.dispatcher.pending = []
  kept : (∀ event ∈ events, ¬event.isFailure) → e'.dispatcher.pending = e.dispatcher.pending
  /-- A callback that is not taken up is not heard of by its listener. -/
  refused : callback ∈ e.dispatcher.pending ∨ e.dispatcher.limit ≤ e.dispatcher.pending.length →
    ∃ error, result = .error (.dispatch error) ∧ events = [.refused callback error] ∧
      e'.dispatcher.pending = e.dispatcher.pending
  taken : callback ∉ e.dispatcher.pending → e.dispatcher.pending.length < e.dispatcher.limit →
    ∃ inner, events = .entered callback (e.dispatcher.pending ++ [callback]) :: inner ++
      [.left callback result e'.dispatcher.pending]
  failed : callback ∉ e.dispatcher.pending → e.dispatcher.pending.length < e.dispatcher.limit →
    ∀ error, result = .error error → e'.dispatcher.pending = []
  idle : e.dispatcher.isIdle → e'.dispatcher.isIdle

theorem Orderly.bounded_prefix {e e' : Engine σ} {events before after : List Event}
    (orderly : Orderly e events e') (start : Bounded e.dispatcher.limit e.dispatcher.pending)
    (split : events = before ++ after) :
    Bounded e.dispatcher.limit (queueAfter e.dispatcher.pending before) := by
  rcases queueAfter_mem e.dispatcher.pending before with same | member
  · rwa [same]
  · refine orderly.bounded start _ ?_
    rw [split, List.filterMap_append]
    exact List.mem_append_left _ member

theorem Orderly.idle {e e' : Engine σ} {events : List Event} (orderly : Orderly e events e')
    (idle : e.dispatcher.isIdle) : e'.dispatcher.isIdle := by
  have empty := List.isEmpty_iff.1 idle
  rcases orderly.keptOrDropped with kept | dropped
  · exact List.isEmpty_iff.2 (kept.trans empty)
  · exact List.isEmpty_iff.2 dropped

theorem discipline_of_refused {e : Engine σ} {callback : Callback} {error : DispatchError}
    (refused : (e.dispatcher.enter callback).2 = .error error) :
    Discipline e callback (.error (.dispatch error)) [.refused callback error]
      (e.refuse callback error) := by
  have orderly := Orderly.of_refused refused
  have turnedAway : callback ∉ e.dispatcher.pending →
      ¬e.dispatcher.pending.length < e.dispatcher.limit := by
    intro absent room
    rw [(Dispatcher.enter_eq_ok_iff _ _).2 ⟨absent, room⟩] at refused
    cases refused
  exact
    { journal := orderly.journal
      shown := orderly.shown
      bounded := fun start _ _ => orderly.bounded_prefix start
      keptOrDropped := orderly.keptOrDropped
      kept := orderly.kept
      refused := fun _ => ⟨error, rfl, rfl, Dispatcher.pending_enter_of_error refused⟩
      taken := fun absent room => absurd room (turnedAway absent)
      failed := fun absent room => absurd room (turnedAway absent)
      idle := orderly.idle }

theorem discipline_of_taken {e e₁ : Engine σ} {callback : Callback}
    {result : Except ScriptError Unit} {inner : List Event}
    (taken : (e.dispatcher.enter callback).2 = .ok ())
    (inside : Orderly (e.takeUp callback) inner e₁) :
    Discipline e callback result
      (.entered callback (e.dispatcher.pending ++ [callback]) :: inner ++
        [.left callback result (e₁.leave callback result).dispatcher.pending])
      (e₁.leave callback result) := by
  have orderly : Orderly e _ (e₁.leave callback result) := .of_taken taken inside
  obtain ⟨absent, room⟩ := (Dispatcher.enter_eq_ok_iff _ _).1 taken
  exact
    { journal := orderly.journal
      shown := orderly.shown
      bounded := fun start _ _ => orderly.bounded_prefix start
      keptOrDropped := orderly.keptOrDropped
      kept := orderly.kept
      refused := fun refused => refused.elim (absurd · absent) (absurd room ∘ Nat.not_lt.2)
      taken := fun _ _ => ⟨inner, rfl⟩
      failed := by
        rintro _ _ error rfl
        rfl
      idle := orderly.idle }

theorem schedule_discipline {e e' : Engine σ} {depth : Nat} {callback : Callback}
    {result : Except ScriptError Unit}
    (run : handle depth (.schedule callback) e = some (result, e')) :
    ∃ events, Discipline e callback result events e' := by
  cases depth with
  | zero => cases run
  | succ depth =>
    rcases schedule_cases run with ⟨error, refused, rfl, rfl⟩ | ⟨taken, e₁, responded, rfl⟩
    · exact ⟨_, discipline_of_refused refused⟩
    · obtain ⟨inner, inside⟩ :=
        Orderly.closed.respond (Orderly.closed.handle depth) callback _ _ _ responded
      exact ⟨_, discipline_of_taken taken inside⟩

/-! ## Whole runs -/

theorem Reachable.orderly {e : Engine σ} (reachable : Reachable e) :
    e.dispatcher.isIdle ∧ ∀ before after, e.journal = before ++ after →
      Bounded e.dispatcher.limit (queueAfter [] before) := by
  obtain ⟨config, foreign, events, orderly⟩ := reachable.related Orderly.closed
  refine ⟨orderly.idle rfl, fun before after split => ?_⟩
  rw [orderly.limit]
  exact orderly.bounded_prefix (.nil _) (orderly.journal.symm.trans split)

/-- Whatever listeners do, no point of a run sees a callback pending twice or the queue over its
limit, and every callback, however deep it nests, leaves the queue as it found it or empty. -/
theorem pending_queue_discipline :
    (∀ {e : Engine σ}, Reachable e →
      e.dispatcher.isIdle ∧ ∀ before after, e.journal = before ++ after →
        Bounded e.dispatcher.limit (queueAfter [] before)) ∧
    ∀ {e e' : Engine σ} {depth : Nat} {callback : Callback} {result : Except ScriptError Unit},
      handle depth (.schedule callback) e = some (result, e') →
        ∃ events, Discipline e callback result events e' :=
  ⟨Reachable.orderly, schedule_discipline⟩

/-- The first listener makes the second one fail and takes no notice of it. -/
def heedless : Engine Unit :=
  let heedless : Listener Unit := .external "heedless" fun _ =>
    .request (.schedule ⟨"B", ⟨2⟩⟩) fun _ => .finish (.ok ())
  let failing : Listener Unit := .external "failing" fun _ =>
    .finish (.error (.reported .runtime "broken"))
  (((create {} ()).addListener heedless).2.addListener failing).2

theorem heedless_discipline :
    ∃ e', handle 2 (.schedule ⟨"A", ⟨1⟩⟩) heedless = some (.ok (), e') ∧
      (heedless.dispatcher.isIdle ∧ ∀ before after, heedless.journal = before ++ after →
        Bounded heedless.dispatcher.limit (queueAfter [] before)) ∧
      ∃ events, Discipline heedless ⟨"A", ⟨1⟩⟩ (.ok ()) events e' := by
  have answer : (handle 2 (.schedule ⟨"A", ⟨1⟩⟩) heedless).map Prod.fst = some (.ok ()) := rfl
  obtain ⟨⟨_, e'⟩, run, rfl⟩ := Option.map_eq_some_iff.1 answer
  exact ⟨e', run, pending_queue_discipline.1 (.listen _ (.listen _ (.create _ _))),
    pending_queue_discipline.2 run⟩

end Engine

end SignalRules
