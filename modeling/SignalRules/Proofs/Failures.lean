import SignalRules.Proofs.Culprits

/-! # What the count of failures counts

A listener that fails is counted unless a cycle is on record. A cycle is put on record when a
callback is refused as circular, and struck off when a callback is scheduled with nothing pending,
not when the error of the refusal is forgotten. So where every error is passed on, those that are
not counted are the ones whose error is that refusal; but a listener that ignores a refusal and then
fails by itself is not counted either.
-/

namespace SignalRules

/-! ## Cycles on record -/

namespace Event

/-- A callback was scheduled. -/
def isScheduling : Event → Bool
  | .entered _ _ => true
  | .refused _ _ => true
  | _ => false

theorem not_isApart_of_isScheduling {event : Event} (scheduled : event.isScheduling) :
    ¬event.isApart := by
  cases event <;> simp_all [isScheduling, isApart]

/-- Whether a cycle is on record after the entry, by the queue and the record in front of it. -/
def record (queue : List Callback) (circular : Bool) : Event → Bool
  | .refused _ (.circular _ _) => true
  | .refused _ (.full _ _) => circular && !queue.isEmpty
  | .entered _ _ => circular && !queue.isEmpty
  | _ => circular

theorem record_of_isApart {event : Event} (apart : event.isApart) (queue : List Callback)
    (circular : Bool) : event.record queue circular = circular := by
  cases event <;> first | rfl | cases apart

end Event

/-- Whether a cycle is on record after some entries. -/
def cycleAfter (queue : List Callback) (circular : Bool) : List Event → Bool
  | [] => circular
  | event :: events =>
    cycleAfter (event.queue?.getD queue) (event.record queue circular) events

/-- How many listeners have failed while no cycle was on record. -/
def tally (queue : List Callback) (circular : Bool) : List Event → Nat
  | [] => 0
  | event :: events =>
    (if event.isFailure && !circular then 1 else 0) +
      tally (event.queue?.getD queue) (event.record queue circular) events

theorem cycleAfter_append (queue : List Callback) (circular : Bool) (first rest : List Event) :
    cycleAfter queue circular (first ++ rest) =
      cycleAfter (queueAfter queue first) (cycleAfter queue circular first) rest := by
  induction first generalizing queue circular with
  | nil => rfl
  | cons event first ih => exact ih _ _

theorem tally_append (queue : List Callback) (circular : Bool) (first rest : List Event) :
    tally queue circular (first ++ rest) =
      tally queue circular first +
        tally (queueAfter queue first) (cycleAfter queue circular first) rest := by
  induction first generalizing queue circular with
  | nil => simp [tally, queueAfter, cycleAfter]
  | cons event first ih =>
    rw [List.cons_append, tally, tally, ih, Nat.add_assoc]
    rfl

theorem cycleAfter_of_isApart {events : List Event} (apart : ∀ event ∈ events, event.isApart)
    (queue : List Callback) (circular : Bool) : cycleAfter queue circular events = circular := by
  induction events generalizing queue with
  | nil => rfl
  | cons event events ih =>
    rw [cycleAfter, Event.record_of_isApart (apart event List.mem_cons_self)]
    exact ih (fun event member => apart event (.tail _ member)) _

theorem Event.isFailure_of_isApart {event : Event} (apart : event.isApart) :
    event.isFailure = false := by
  cases event <;> first | rfl | cases apart

theorem tally_of_isApart {events : List Event} (apart : ∀ event ∈ events, event.isApart)
    (queue : List Callback) (circular : Bool) : tally queue circular events = 0 := by
  induction events generalizing queue with
  | nil => rfl
  | cons event events ih =>
    have here := apart event List.mem_cons_self
    rw [tally, Event.record_of_isApart here, Event.isFailure_of_isApart here,
      ih fun event member => apart event (.tail _ member)]
    rfl

/-- Nothing was scheduled while nothing was pending. -/
def Unrenewed (queue : List Callback) (events : List Event) : Prop :=
  ∀ before event after, events = before ++ event :: after → event.isScheduling →
    queueAfter queue before ≠ []

/-- A cycle was found, or one was on record, and nothing has been scheduled since while nothing was
pending. -/
def OnRecord (queue : List Callback) (circular : Bool) (events : List Event) : Prop :=
  circular = true ∧ Unrenewed queue events ∨
    ∃ before callback signal chain after,
      events = before ++ .refused callback (.circular signal chain) :: after ∧
        Unrenewed (queueAfter queue before) after

theorem unrenewed_cons_iff {queue : List Callback} {event : Event} {events : List Event} :
    Unrenewed queue (event :: events) ↔
      (event.isScheduling → queue ≠ []) ∧ Unrenewed (event.queue?.getD queue) events := by
  constructor
  · intro unrenewed
    exact ⟨unrenewed [] event events rfl, fun before call after split =>
      unrenewed (event :: before) call after (by rw [split]; rfl)⟩
  · rintro ⟨here, later⟩ before call after split scheduled
    cases before with
    | nil =>
      cases split
      exact here scheduled
    | cons _ before =>
      cases split
      exact later before call after rfl scheduled

theorem Event.record_eq_true_iff {event : Event} {queue : List Callback} {circular : Bool} :
    event.record queue circular = true ↔
      circular = true ∧ (event.isScheduling → queue ≠ []) ∨
        ∃ callback signal chain, event = .refused callback (.circular signal chain) := by
  cases event with
  | refused _ error => cases error <;> simp [record, isScheduling]
  | _ => simp [record, isScheduling]

theorem onRecord_cons_iff {queue : List Callback} {circular : Bool} {event : Event}
    {events : List Event} : OnRecord queue circular (event :: events) ↔
      OnRecord (event.queue?.getD queue) (event.record queue circular) events := by
  rw [OnRecord, OnRecord, Event.record_eq_true_iff, unrenewed_cons_iff]
  constructor
  · rintro (⟨known, here, later⟩ | ⟨before, callback, signal, chain, after, split, unrenewed⟩)
    · exact .inl ⟨.inl ⟨known, here⟩, later⟩
    · cases before with
      | nil =>
        cases split
        exact .inl ⟨.inr ⟨callback, signal, chain, rfl⟩, unrenewed⟩
      | cons _ before =>
        cases split
        exact .inr ⟨before, callback, signal, chain, after, rfl, unrenewed⟩
  · rintro (⟨⟨known, here⟩ | ⟨callback, signal, chain, rfl⟩, later⟩ |
      ⟨before, callback, signal, chain, after, rfl, unrenewed⟩)
    · exact .inl ⟨known, here, later⟩
    · exact .inr ⟨[], callback, signal, chain, events, rfl, later⟩
    · exact .inr ⟨event :: before, callback, signal, chain, after, rfl, unrenewed⟩

theorem onRecord_iff {queue : List Callback} {circular : Bool} {events : List Event} :
    OnRecord queue circular events ↔ cycleAfter queue circular events = true := by
  induction events generalizing queue circular with
  | nil => simp [OnRecord, Unrenewed, cycleAfter]
  | cons event events ih => rw [onRecord_cons_iff, ih, cycleAfter]

/-! ## Errors that are passed on -/

/-- The error that an entry brings up. -/
def Event.error? : Event → Option ScriptError
  | .refused _ error => some (.dispatch error)
  | .left _ (.error error) _ => some error
  | _ => none

theorem Event.error?_of_isApart {event : Event} (apart : event.isApart) : event.error? = none := by
  cases event <;> first | rfl | cases apart

/-- Where an error comes up, what is heard of callbacks next is that one has ended with it. -/
def PassedOn (events : List Event) : Prop :=
  ∀ before bad quiet next after error, events = before ++ bad :: (quiet ++ next :: after) →
    bad.error? = some error → (∀ event ∈ quiet, event.isApart) → ¬next.isApart →
      ∃ callback queue, next = .left callback (.error error) queue

theorem PassedOn.of_infix {events part : List Event} (passedOn : PassedOn events)
    (inside : part <:+: events) : PassedOn part := by
  obtain ⟨front, back, rfl⟩ := inside
  intro before bad quiet next after error split
  refine passedOn (front ++ before) bad quiet next (after ++ back) error ?_
  simp [split]

/-- The last that is heard of callbacks is an error. -/
def EndsIn (events : List Event) (error : ScriptError) : Prop :=
  ∃ before bad quiet, events = before ++ bad :: quiet ∧ bad.error? = some error ∧
    ∀ event ∈ quiet, event.isApart

/-- The error is that of a callback which was refused as circular. -/
def Rejects (events : List Event) (error : ScriptError) : Prop :=
  ∃ callback signal chain, .refused callback (.circular signal chain) ∈ events ∧
    error = .dispatch (.circular signal chain)

theorem not_rejects {events : List Event} (faultless : ∀ event ∈ events, event.error? = none)
    (error : ScriptError) : ¬Rejects events error := by
  rintro ⟨callback, signal, chain, member, -⟩
  cases faultless _ member

theorem rejects_append_iff {first rest : List Event} {error : ScriptError} :
    Rejects (first ++ rest) error ↔ Rejects first error ∨ Rejects rest error := by
  simp only [Rejects, List.mem_append, or_and_right, exists_or]

/-- A callback that is taken up brings up nothing but what comes up inside and the error it ends
with. -/
theorem rejects_around_iff {callback : Callback} {result : Except ScriptError Unit}
    {queue queue' : List Callback} {inner : List Event} {error : ScriptError} :
    Rejects (.entered callback queue :: inner ++ [.left callback result queue']) error ↔
      Rejects inner error := by
  simp [Rejects]

namespace Dispatcher

theorem circular_refresh (d : Dispatcher) :
    d.refresh.circular = (d.circular && !d.pending.isEmpty) := by
  unfold refresh
  cases idle : d.pending.isEmpty <;> simp

theorem circular_enter_of_error {d : Dispatcher} {callback : Callback} {error : DispatchError}
    (refused : (d.enter callback).2 = .error error) : (d.enter callback).1.circular =
      (Event.refused callback error).record d.pending d.circular := by
  unfold enter at refused ⊢
  split at refused
  · cases refused
    rw [if_pos ‹_›]
    rfl
  · split at refused <;> cases refused
    rw [if_neg ‹_›, if_pos ‹_›]
    exact d.circular_refresh

theorem circular_enter_of_ok {d : Dispatcher} {callback : Callback}
    (taken : (d.enter callback).2 = .ok ()) :
    (d.enter callback).1.circular = (d.circular && !d.pending.isEmpty) := by
  obtain ⟨absent, room⟩ := (enter_eq_ok_iff d callback).1 taken
  rw [enter, if_neg absent, if_neg (Nat.not_le.2 room)]
  exact d.circular_refresh

theorem circular_leave (d : Dispatcher) (callback : Callback) (result : Except ScriptError Unit) :
    (d.leave callback result).circular = d.circular := by
  cases result <;> rfl

theorem failures_leave (d : Dispatcher) (callback : Callback)
    (result : Except ScriptError Unit) (pending : List Callback) :
    (d.leave callback result).failures = d.failures +
      if (Event.left callback result pending).isFailure && !d.circular then 1 else 0 := by
  cases result with
  | ok _ => rfl
  | error _ =>
    rw [leave]
    cases d.circular <;> rfl

end Dispatcher

namespace Engine

variable {σ : Type}

/-! ## What every run keeps -/

/-- Between the two engines the dispatcher kept the record and the count, and errors that were
passed on ended the chain. -/
structure Records (e : Engine σ) (events : List Event) (e' : Engine σ) : Prop where
  orderly : Orderly e events e'
  circular : e'.dispatcher.circular = cycleAfter e.dispatcher.pending e.dispatcher.circular events
  failures : e'.dispatcher.failures =
    e.dispatcher.failures + tally e.dispatcher.pending e.dispatcher.circular events
  /-- What is heard of callbacks first is that one is scheduled. -/
  opens : (∀ event ∈ events, event.isApart) ∨ ∃ quiet next after,
    events = quiet ++ next :: after ∧ (∀ event ∈ quiet, event.isApart) ∧ next.isScheduling
  ends : PassedOn events → e.dispatcher.circular = false →
    (∀ event ∈ events, event.error? = none) ∧ e'.dispatcher.circular = false ∨
      ∃ error, EndsIn events error ∧ (e'.dispatcher.circular = true ↔ Rejects events error)

namespace Records

theorem of_apart {e e' : Engine σ} (apart : Apart e e') : ∃ events, Records e events e' := by
  obtain ⟨events, journal, aparts⟩ := apart.journal
  exact ⟨events,
    { orderly := .of_same apart.dispatcher journal aparts
      circular := by rw [cycleAfter_of_isApart aparts, apart.dispatcher]
      failures := by rw [tally_of_isApart aparts, apart.dispatcher, Nat.add_zero]
      opens := .inl aparts
      ends := fun _ calm => .inl ⟨fun event member => Event.error?_of_isApart (aparts event member),
        by rw [apart.dispatcher, calm]⟩ }⟩

theorem of_refused {e : Engine σ} {callback : Callback} {error : DispatchError}
    (refused : (e.dispatcher.enter callback).2 = .error error) :
    Records e [.refused callback error] (e.refuse callback error) where
  orderly := .of_refused refused
  circular := Dispatcher.circular_enter_of_error refused
  failures := Dispatcher.failures_enter e.dispatcher callback
  opens := .inr ⟨[], _, [], rfl, by simp, rfl⟩
  ends := by
    intro _ calm
    refine .inr ⟨_, ⟨[], _, [], rfl, rfl, by simp⟩, ?_⟩
    change (e.dispatcher.enter callback).1.circular = true ↔ _
    rw [Dispatcher.circular_enter_of_error refused, calm]
    cases error <;> simp [Event.record, Rejects]

theorem trans {a b c : Engine σ} {first rest : List Event} (ab : Records a first b)
    (bc : Records b rest c) : Records a (first ++ rest) c where
  orderly := ab.orderly.trans bc.orderly
  circular := by rw [cycleAfter_append, ab.orderly.shown, ← ab.circular, bc.circular]
  failures := by
    rw [tally_append, ab.orderly.shown, ← ab.circular, bc.failures, ab.failures, Nat.add_assoc]
  opens := by
    rcases ab.opens with apart | ⟨quiet, next, after, rfl, apart, scheduled⟩
    · rcases bc.opens with apart' | ⟨quiet, next, after, rfl, apart', scheduled⟩
      · exact .inl (List.forall_mem_append.2 ⟨apart, apart'⟩)
      · exact .inr ⟨first ++ quiet, next, after, by simp,
          List.forall_mem_append.2 ⟨apart, apart'⟩, scheduled⟩
    · exact .inr ⟨quiet, next, after ++ rest, by simp, apart, scheduled⟩
  ends := by
    intro passedOn calm
    have before := ab.ends (passedOn.of_infix (List.prefix_append _ _).isInfix) calm
    rcases before with ⟨faultless, calm'⟩ | ⟨error, ⟨before, bad, quiet, rfl, comesUp, apart⟩, ends⟩
    · rcases bc.ends (passedOn.of_infix (List.suffix_append _ _).isInfix) calm' with
        ⟨faultless', still⟩ | ⟨error, ⟨before, bad, quiet, rfl, comesUp, apart⟩, ends⟩
      · exact .inl ⟨List.forall_mem_append.2 ⟨faultless, faultless'⟩, still⟩
      · refine .inr ⟨error, ⟨first ++ before, bad, quiet, by simp, comesUp, apart⟩, ?_⟩
        exact ends.trans
          (rejects_append_iff.trans (or_iff_right (not_rejects faultless error))).symm
    · -- an error that is passed on is the last that is heard of callbacks here
      have apart' : ∀ event ∈ rest, event.isApart := by
        rcases bc.opens with apart' | ⟨quiet', next, after, rfl, apart', scheduled⟩
        · exact apart'
        · obtain ⟨callback, queue, rfl⟩ := passedOn before bad (quiet ++ quiet') next after error
            (by simp) comesUp (List.forall_mem_append.2 ⟨apart, apart'⟩)
            (Event.not_isApart_of_isScheduling scheduled)
          cases scheduled
      have faultless : ∀ event ∈ rest, event.error? = none := fun event member =>
        Event.error?_of_isApart (apart' event member)
      refine .inr ⟨error, ⟨before, bad, quiet ++ rest, by simp, comesUp,
        List.forall_mem_append.2 ⟨apart, apart'⟩⟩, ?_⟩
      rw [bc.circular, cycleAfter_of_isApart apart']
      exact ends.trans
        (rejects_append_iff.trans (or_iff_left (not_rejects faultless error))).symm

/-- What an invocation whose errors are passed on returns tells whether a cycle is on record. -/
theorem returned {a b : Engine σ} {inner : List Event} (inside : Records a inner b)
    (calm : a.dispatcher.circular = false) {front : Event} {callback : Callback}
    {result : Except ScriptError Unit} {queue : List Callback}
    (passedOn : PassedOn (front :: inner ++ [.left callback result queue])) :
    (result = .ok () → (∀ event ∈ inner, event.error? = none) ∧ b.dispatcher.circular = false) ∧
      ∀ error, result = .error error → (b.dispatcher.circular = true ↔ Rejects inner error) := by
  have part : inner <:+: front :: inner ++ [.left callback result queue] := ⟨[_], [_], rfl⟩
  rcases inside.ends (passedOn.of_infix part) calm with
    ⟨faultless, still⟩ | ⟨cause, ⟨before, bad, quiet, split, comesUp, apart⟩, ends⟩
  · refine ⟨fun _ => ⟨faultless, still⟩, fun error _ => ?_⟩
    rw [still]
    exact iff_of_false Bool.false_ne_true (not_rejects faultless error)
  · obtain ⟨_, _, same⟩ := passedOn (front :: before) bad quiet (.left callback result queue) []
      cause (by simp [split]) comesUp apart nofun
    cases same
    refine ⟨nofun, ?_⟩
    rintro error ⟨⟩
    exact ends

/-- The record and the count when the listener of a callback has returned. -/
theorem of_entered {e e₁ : Engine σ} {callback : Callback} {inner : List Event}
    (taken : (e.dispatcher.enter callback).2 = .ok ())
    (inside : Records (e.takeUp callback) inner e₁) :
    e₁.dispatcher.circular = cycleAfter e.dispatcher.pending e.dispatcher.circular
        (.entered callback (e.dispatcher.pending ++ [callback]) :: inner) ∧
      e₁.dispatcher.failures = e.dispatcher.failures +
        tally e.dispatcher.pending e.dispatcher.circular
          (.entered callback (e.dispatcher.pending ++ [callback]) :: inner) := by
  have pushed : (e.takeUp callback).dispatcher.pending = e.dispatcher.pending ++ [callback] :=
    Dispatcher.pending_enter_of_ok taken
  have renewed : (e.takeUp callback).dispatcher.circular =
      (e.dispatcher.circular && !e.dispatcher.pending.isEmpty) :=
    Dispatcher.circular_enter_of_ok taken
  have counted : (e.takeUp callback).dispatcher.failures = e.dispatcher.failures :=
    Dispatcher.failures_enter e.dispatcher callback
  have circular := inside.circular
  have failures := inside.failures
  rw [pushed, renewed] at circular failures
  rw [counted] at failures
  refine ⟨circular, ?_⟩
  rw [failures, tally]
  simp [Event.isFailure, Event.queue?, Event.record]

theorem of_taken {e e₁ : Engine σ} {callback : Callback} {result : Except ScriptError Unit}
    {inner : List Event} (taken : (e.dispatcher.enter callback).2 = .ok ())
    (inside : Records (e.takeUp callback) inner e₁) :
    Records e
      (.entered callback (e.dispatcher.pending ++ [callback]) :: inner ++
        [.left callback result (e₁.leave callback result).dispatcher.pending])
      (e₁.leave callback result) where
  orderly := .of_taken taken inside.orderly
  circular := by
    rw [cycleAfter_append, ← (of_entered taken inside).1]
    exact e₁.dispatcher.circular_leave callback result
  failures := by
    obtain ⟨circular, failures⟩ := of_entered taken inside
    rw [tally_append, ← circular, ← Nat.add_assoc, ← failures]
    exact e₁.dispatcher.failures_leave callback result _
  opens := .inr ⟨[], _, _, rfl, by simp, rfl⟩
  ends := by
    intro passedOn calm
    have renewed : (e.takeUp callback).dispatcher.circular = false :=
      Dispatcher.Calm.enter_of_ok (.inr calm) taken
    obtain ⟨ok, error⟩ := inside.returned renewed passedOn
    have same : (e₁.leave callback result).dispatcher.circular = e₁.dispatcher.circular :=
      e₁.dispatcher.circular_leave callback result
    rw [same]
    cases result with
    | ok _ =>
      obtain ⟨faultless, still⟩ := ok rfl
      refine .inl ⟨fun event member => ?_, still⟩
      rcases List.mem_append.1 member with member | member
      · rcases List.mem_cons.1 member with rfl | member
        · rfl
        · exact faultless event member
      · cases List.mem_singleton.1 member
        rfl
    | error cause =>
      refine .inr ⟨cause, ⟨_, _, [], rfl, rfl, by simp⟩, (error cause rfl).trans ?_⟩
      exact rejects_around_iff.symm

/-- The records are kept by everything that runs are made of. -/
theorem closed : Closed fun e e' : Engine σ => ∃ events, Records e events e' where
  refl _ := of_apart (.of_same rfl rfl rfl)
  trans := by
    rintro a b c ⟨_, ab⟩ ⟨_, bc⟩
    exact ⟨_, ab.trans bc⟩
  apart := of_apart
  refused refused := ⟨_, of_refused refused⟩
  taken := by
    rintro _ _ _ _ taken ⟨_, records⟩
    exact ⟨_, of_taken taken records⟩

end Records

/-! ## One invocation -/

/-- What an invocation adds to the count by itself, `before` being its entries up to its end. -/
structure Adds (e : Engine σ) (result : Except ScriptError Unit) (before events : List Event)
    (e' : Engine σ) : Prop where
  ok : result = .ok () → e'.dispatcher.failures =
    e.dispatcher.failures + tally e.dispatcher.pending e.dispatcher.circular before
  error : ∀ error, result = .error error →
    OnRecord e.dispatcher.pending e.dispatcher.circular before ∧ e'.dispatcher.failures =
        e.dispatcher.failures + tally e.dispatcher.pending e.dispatcher.circular before ∨
      ¬OnRecord e.dispatcher.pending e.dispatcher.circular before ∧ e'.dispatcher.failures =
        e.dispatcher.failures + tally e.dispatcher.pending e.dispatcher.circular before + 1
  /-- Where every error is passed on, a cycle is on record exactly if the error is that of a
  callback that was refused as circular inside the invocation. -/
  passedOn : e.dispatcher.Calm → PassedOn events → ∀ error, result = .error error →
    (OnRecord e.dispatcher.pending e.dispatcher.circular before ↔ Rejects before error)

/-- What carrying out a callback adds to the count of failures, given the entries that it makes in
the journal. -/
structure Counts (e : Engine σ) (callback : Callback) (result : Except ScriptError Unit)
    (events : List Event) (e' : Engine σ) : Prop where
  journal : e'.journal = e.journal ++ events
  total : e'.dispatcher.failures =
    e.dispatcher.failures + tally e.dispatcher.pending e.dispatcher.circular events
  /-- What is refused is no invocation. -/
  refused : callback ∈ e.dispatcher.pending ∨ e.dispatcher.limit ≤ e.dispatcher.pending.length →
    e'.dispatcher.failures = e.dispatcher.failures
  taken : callback ∉ e.dispatcher.pending → e.dispatcher.pending.length < e.dispatcher.limit →
    ∃ inner, events = .entered callback (e.dispatcher.pending ++ [callback]) :: inner ++
        [.left callback result e'.dispatcher.pending] ∧
      Adds e result (.entered callback (e.dispatcher.pending ++ [callback]) :: inner) events e'

theorem adds_of_taken {e e₁ : Engine σ} {callback : Callback} {result : Except ScriptError Unit}
    {inner : List Event} (taken : (e.dispatcher.enter callback).2 = .ok ())
    (inside : Records (e.takeUp callback) inner e₁) :
    Adds e result (.entered callback (e.dispatcher.pending ++ [callback]) :: inner)
      (.entered callback (e.dispatcher.pending ++ [callback]) :: inner ++
        [.left callback result (e₁.leave callback result).dispatcher.pending])
      (e₁.leave callback result) := by
  obtain ⟨circular, failures⟩ := Records.of_entered taken inside
  have own := e₁.dispatcher.failures_leave callback result []
  rw [failures] at own
  have own : (e₁.leave callback result).dispatcher.failures = _ := own
  constructor
  · rintro rfl
    exact own
  · rintro error rfl
    rw [onRecord_iff, ← circular, own]
    cases e₁.dispatcher.circular <;> simp [Event.isFailure]
  · intro calm passedOn error failed
    have renewed : (e.takeUp callback).dispatcher.circular = false := calm.enter_of_ok taken
    rw [onRecord_iff, ← circular, (inside.returned renewed passedOn).2 error failed]
    simp [Rejects]

theorem schedule_counts {e e' : Engine σ} {depth : Nat} {callback : Callback}
    {result : Except ScriptError Unit}
    (run : handle depth (.schedule callback) e = some (result, e')) :
    ∃ events, Counts e callback result events e' := by
  cases depth with
  | zero => cases run
  | succ depth =>
    rcases schedule_cases run with ⟨error, refused, rfl, rfl⟩ | ⟨taken, e₁, responded, rfl⟩
    · have records := Records.of_refused refused
      refine ⟨_, records.orderly.journal, records.failures,
        fun _ => Dispatcher.failures_enter e.dispatcher callback, fun absent room => ?_⟩
      rw [(Dispatcher.enter_eq_ok_iff _ _).2 ⟨absent, room⟩] at refused
      cases refused
    · obtain ⟨inner, inside⟩ :=
        Records.closed.respond (Records.closed.handle depth) callback _ _ _ responded
      have records : Records e _ (e₁.leave callback result) := .of_taken taken inside
      obtain ⟨absent, room⟩ := (Dispatcher.enter_eq_ok_iff _ _).1 taken
      exact ⟨_, records.orderly.journal, records.failures,
        fun refused => refused.elim (absurd · absent) (absurd room ∘ Nat.not_lt.2),
        fun _ _ => ⟨inner, rfl, adds_of_taken taken inside⟩⟩

theorem Reachable.failures_eq {e : Engine σ} (reachable : Reachable e) :
    e.dispatcher.failures = tally [] false e.journal := by
  obtain ⟨config, foreign, events, records⟩ := reachable.related Records.closed
  have journal : e.journal = events := records.orderly.journal
  rw [journal, records.failures]
  exact Nat.zero_add _

/-- Every listener that fails is counted once, and by its own invocation, unless a cycle is on
record. Where all errors are passed on, this is the case exactly if the listener failed because a
callback was refused as circular. -/
theorem failures_counted :
    (∀ {e : Engine σ}, Reachable e → e.dispatcher.failures = tally [] false e.journal) ∧
    ∀ {e e' : Engine σ} {depth : Nat} {callback : Callback} {result : Except ScriptError Unit},
      handle depth (.schedule callback) e = some (result, e') →
        ∃ events, Counts e callback result events e' :=
  ⟨Reachable.failures_eq, schedule_counts⟩

/-- A listener that has itself told of the same signal once more, takes no notice of the answer, and
fails. -/
def grudging : Engine Unit :=
  ((create {} ()).addListener (.external "grudging" fun signal =>
    .request (.schedule ⟨signal, ⟨1⟩⟩) fun _ =>
      .finish (.error (.reported .runtime "broken")))).2

theorem grudging_counted :
    ∃ error e', handle 2 (.schedule ⟨"A", ⟨1⟩⟩) grudging = some (.error error, e') ∧
      grudging.dispatcher.failures = tally [] false grudging.journal ∧
      ∃ events, Counts grudging ⟨"A", ⟨1⟩⟩ (.error error) events e' := by
  obtain ⟨error, e', run⟩ : ∃ error e',
      handle 2 (.schedule ⟨"A", ⟨1⟩⟩) grudging = some (.error error, e') := ⟨_, _, rfl⟩
  exact ⟨error, e', run, failures_counted.1 (.listen _ (.create _ _)), failures_counted.2 run⟩

/-- A listener that fails by itself is not counted if it has taken no notice of a cycle. -/
theorem not_every_failure_counted :
    ¬∀ {e e' : Engine Unit} {depth : Nat} {callback : Callback} {error : ScriptError}
        {queue : List Callback} {inner : List Event}, Reachable e →
      handle depth (.schedule callback) e = some (.error error, e') →
      e'.journal = e.journal ++ (.entered callback (e.dispatcher.pending ++ [callback]) :: inner ++
        [.left callback (.error error) queue]) →
      (∀ event ∈ inner, ¬event.isFailure) → ¬Rejects inner error →
        e'.dispatcher.failures = e.dispatcher.failures + 1 := by
  intro counted
  have run : ∃ e', handle 2 (.schedule ⟨"A", ⟨1⟩⟩) grudging =
        some (.error (.reported .runtime "broken"), e') ∧
      e'.journal = grudging.journal ++
        (.entered ⟨"A", ⟨1⟩⟩ (grudging.dispatcher.pending ++ [⟨"A", ⟨1⟩⟩]) ::
          [.refused ⟨"A", ⟨1⟩⟩ (.circular "A" ["A", "A"])] ++
          [.left ⟨"A", ⟨1⟩⟩ (.error (.reported .runtime "broken")) []]) ∧
      e'.dispatcher.failures = 0 := ⟨_, rfl, rfl, rfl⟩
  obtain ⟨e', run, journal, none⟩ := run
  have once := counted (.listen _ (.create _ _)) run journal (by simp [Event.isFailure])
    (by simp [Rejects])
  rw [none] at once
  cases once

end Engine

end SignalRules
