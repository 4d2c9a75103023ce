import SignalRules.Proofs.Queue
import SignalRules.Proofs.Session

/-! # What cascades leave in the journal

Entries of one kind, each seen together with the pending queue at that point, and the entries that
the parts of a check make.
-/

namespace SignalRules

variable {α : Type}

/-- What is picked from the entries, each with the queue at that point. -/
def occurrences (pick : Event → Option α) : List Callback → List Event → List (List Callback × α)
  | _, [] => []
  | queue, event :: events =>
    let queue := event.queue?.getD queue
    match pick event with
    | some a => (queue, a) :: occurrences pick queue events
    | none => occurrences pick queue events

theorem occurrences_append (pick : Event → Option α) (queue : List Callback)
    (first rest : List Event) :
    occurrences pick queue (first ++ rest) =
      occurrences pick queue first ++ occurrences pick (queueAfter queue first) rest := by
  induction first generalizing queue with
  | nil => rfl
  | cons event events ih =>
    simp only [List.cons_append, occurrences, queueAfter, List.foldl_cons]
    cases pick event <;> simp [ih, queueAfter]

theorem occurrences_of_none {pick : Event → Option α} {events : List Event}
    (none : ∀ event ∈ events, pick event = none) (queue : List Callback) :
    occurrences pick queue events = [] := by
  induction events generalizing queue with
  | nil => rfl
  | cons event events ih =>
    simp only [occurrences, none event List.mem_cons_self]
    exact ih (fun event member => none event (List.mem_cons_of_mem _ member)) _

theorem eq_none_of_occurrences {pick : Event → Option α} {queue : List Callback}
    {events : List Event} (nothing : occurrences pick queue events = []) :
    ∀ event ∈ events, pick event = none := by
  induction events generalizing queue with
  | nil => exact fun _ member => absurd member List.not_mem_nil
  | cons event events ih =>
    rw [occurrences] at nothing
    split at nothing
    · cases nothing
    · rename_i unpicked
      exact List.forall_mem_cons.2 ⟨unpicked, ih nothing⟩

/-- Providers make no entries of this kind by themselves. -/
def Selective (pick : Event → Option α) : Prop :=
  ∀ {event : Event}, event.isAside → pick event = none

namespace Engine

variable {σ : Type}

/-- Nobody was told of anything, and no action has ended. -/
structure Hushed (e : Engine σ) (events : List Event) (e' : Engine σ) : Prop where
  dispatcher : e'.dispatcher = e.dispatcher
  journal : e'.journal = e.journal ++ events
  aside : ∀ event ∈ events, event.isAside

namespace Hushed

theorem trans {a b c : Engine σ} {first rest : List Event} (ab : Hushed a first b)
    (bc : Hushed b rest c) : Hushed a (first ++ rest) c where
  dispatcher := bc.dispatcher.trans ab.dispatcher
  journal := by rw [bc.journal, ab.journal, List.append_assoc]
  aside event member := (List.mem_append.1 member).elim (ab.aside event) (bc.aside event)

theorem of_aside {e e' : Engine σ} (aside : Aside e e') : ∃ events, Hushed e events e' := by
  obtain ⟨_, events, asides, rfl⟩ := aside
  exact ⟨events, rfl, rfl, asides⟩

theorem modify {e e' : Engine σ} {events : List Event} (hushed : Hushed e events e')
    (id : ListenerId) (f : Rule → Rule) : Hushed e events (e'.modifyRule id f) where
  dispatcher := (dispatcher_modifyRule e' id f).trans hushed.dispatcher
  journal := by
    rw [modifyRule_eq]
    exact hushed.journal
  aside := hushed.aside

theorem orderly {e e' : Engine σ} {events : List Event} (hushed : Hushed e events e') :
    Orderly e events e' :=
  .of_same hushed.dispatcher hushed.journal fun event member =>
    Event.isApart_of_isAside (hushed.aside event member)

theorem occurrences_append {pick : Event → Option α} (selective : Selective pick)
    {e e' : Engine σ} {events : List Event} (hushed : Hushed e events e') (rest : List Event) :
    occurrences pick e.dispatcher.pending (events ++ rest) =
      occurrences pick e'.dispatcher.pending rest := by
  rw [SignalRules.occurrences_append, hushed.orderly.shown,
    occurrences_of_none fun event member => selective (hushed.aside event member), List.nil_append]

end Hushed

theorem Judged.hushed {e e₁ e₂ : Engine σ} {id : ListenerId} {rule : Rule} {truth : Outcome Bool}
    (judged : Judged e id rule truth e₁) {held : Bool} (aside : Aside (e₁.hold id held) e₂) :
    ∃ events, Hushed e events e₂ := by
  obtain ⟨first, judging⟩ := Hushed.of_aside judged.aside
  obtain ⟨rest, trying⟩ := Hushed.of_aside aside
  exact ⟨first ++ rest, (judging.modify id _).trans trying⟩

theorem Orderly.modify {e e' : Engine σ} {events : List Event} (orderly : Orderly e events e')
    (id : ListenerId) (f : Rule → Rule) : Orderly e events (e'.modifyRule id f) := by
  rw [modifyRule_eq]
  exact { orderly with }

/-- To take note of the outcome of an action makes one entry. -/
theorem orderly_conclude {e e' : Engine σ} {id : ListenerId} {before : Nat}
    {outcome : Outcome Expr.Completion} {result : Except ScriptError Unit}
    (concluded : (e.note (.fired id outcome)).conclude id before outcome = (result, e')) :
    Orderly e [.fired id outcome] e' := by
  have noted : Orderly e [.fired id outcome] (e.note (.fired id outcome)) :=
    .of_same rfl rfl (by simp [Event.isApart])
  obtain ⟨_, _, rfl⟩ := settled_of_concluded concluded
  exact noted.modify _ _

theorem dispatcher_conclude {e e' : Engine σ} {id : ListenerId} {before : Nat}
    {outcome : Outcome Expr.Completion} {result : Except ScriptError Unit}
    (concluded : e.conclude id before outcome = (result, e')) : e'.dispatcher = e.dispatcher := by
  obtain ⟨_, _, rfl⟩ := settled_of_concluded concluded
  exact dispatcher_modifyRule _ _ _

theorem Judged.dispatcher {e e₁ e₂ : Engine σ} {id : ListenerId} {rule : Rule}
    {truth : Outcome Bool} (judged : Judged e id rule truth e₁) {held : Bool}
    (aside : Aside (e₁.hold id held) e₂) : e₂.dispatcher = e.dispatcher := by
  rw [aside.dispatcher, hold, dispatcher_modifyRule, judged.aside.dispatcher]

/-- Where an action tells nobody of anything, a check makes one entry that matters. -/
theorem Judged.tried {e e₁ e₂ e' : Engine σ} {checked : ListenerId} {rule : Rule}
    {truth : Outcome Bool} {held : Bool} {before : Nat} {outcome : Outcome Expr.Completion}
    {result : Except ScriptError Unit} (judged : Judged e checked rule truth e₁)
    (aside : Aside (e₁.hold checked held) e₂)
    (concluded : (e₂.note (.fired checked outcome)).conclude checked before outcome =
      (result, e')) :
    ∃ events, Orderly e events e' ∧ ∀ {α : Type} {pick : Event → Option α}, Selective pick →
      occurrences pick e.dispatcher.pending events =
        occurrences pick e.dispatcher.pending [.fired checked outcome] := by
  obtain ⟨first, hushed⟩ := judged.hushed aside
  refine ⟨first ++ [.fired checked outcome], hushed.orderly.trans (orderly_conclude concluded), ?_⟩
  intro α pick selective
  rw [hushed.occurrences_append selective, hushed.dispatcher]

/-- Where an action writes a signal, a check makes the entries of the write and one at its end. -/
theorem Judged.wrote {e e₁ e₂ e₃ e₄ e' : Engine σ} {checked : ListenerId} {rule : Rule}
    {truth : Outcome Bool} {held : Bool} {before : Nat} {outcome : Outcome Expr.Completion}
    {result : Except ScriptError Unit} {inside : List Event}
    (judged : Judged e checked rule truth e₁) (aside : Aside (e₁.hold checked held) e₂)
    (orderly : Orderly e₂ inside e₃) (asideAfter : Aside e₃ e₄)
    (concluded : (e₄.note (.fired checked outcome)).conclude checked before outcome =
      (result, e')) :
    ∃ events, Orderly e events e' ∧ ∀ {α : Type} {pick : Event → Option α}, Selective pick →
      occurrences pick e.dispatcher.pending events =
        occurrences pick e.dispatcher.pending inside ++
          occurrences pick e₃.dispatcher.pending [.fired checked outcome] := by
  obtain ⟨first, hushed⟩ := judged.hushed aside
  obtain ⟨last, hushedAfter⟩ := Hushed.of_aside asideAfter
  refine ⟨first ++ (inside ++ (last ++ [.fired checked outcome])), hushed.orderly.trans
    (orderly.trans (hushedAfter.orderly.trans (orderly_conclude concluded))), ?_⟩
  intro α pick selective
  rw [hushed.occurrences_append selective, SignalRules.occurrences_append, orderly.shown,
    hushedAfter.occurrences_append selective, hushed.dispatcher, hushedAfter.dispatcher]

/-! ## Success -/

namespace Cascade

/-- Where no error has come up, the queue is as it was and no failure has been counted. -/
theorem smooth {task : Task} {e e' : Engine σ} {result : Except ScriptError Unit}
    (cascade : Cascade task e result e') (ok : result = .ok ()) :
    e'.dispatcher.pending = e.dispatcher.pending ∧
      e'.dispatcher.failures = e.dispatcher.failures := by
  induction cascade with
  | asleep => exact ⟨rfl, rfl⟩
  | unclear judged => rw [judged.aside.dispatcher]; exact ⟨rfl, rfl⟩
  | broken => cases ok
  | steady judged =>
    rw [hold, dispatcher_modifyRule, judged.aside.dispatcher]
    exact ⟨rfl, rfl⟩
  | tried judged _ attempt concluded =>
    have tried := judged.dispatcher attempt.aside
    have same := (dispatcher_conclude concluded).trans tried
    exact ⟨congrArg Dispatcher.pending same, congrArg Dispatcher.failures same⟩
  | wrote judged _ writing _ aside outcome_eq concluded ih =>
    subst ok
    obtain ⟨pending, failures⟩ := ih (written_of_concluded (outcome_eq ▸ concluded))
    rw [judged.dispatcher writing.aside] at pending failures
    have same := (dispatcher_conclude concluded).trans aside.dispatcher
    exact ⟨(congrArg Dispatcher.pending same).trans pending,
      (congrArg Dispatcher.failures same).trans failures⟩
  | unchanged => exact ⟨rfl, rfl⟩
  | changed _ _ ih => exact ih ok
  | nil => exact ⟨rfl, rfl⟩
  | cons _ _ first rest =>
    exact ⟨(rest ok).1.trans (first rfl).1, (rest ok).2.trans (first rfl).2⟩
  | stop => cases ok
  | refused => cases ok
  | @taken e e₁ callback result verdict inner ih =>
    subst ok
    obtain ⟨pending, failures⟩ := ih rfl
    have pushed : (e.takeUp callback).dispatcher.pending = e.dispatcher.pending ++ [callback] :=
      Dispatcher.pending_enter_of_ok verdict
    exact ⟨pending_leave_ok (pending.trans pushed),
      failures.trans (Dispatcher.failures_enter e.dispatcher callback)⟩

/-- Among rules, as anywhere, the queue is disciplined. -/
theorem orderly {task : Task} {e e' : Engine σ} {result : Except ScriptError Unit}
    (cascade : Cascade task e result e') : ∃ events, Orderly e events e' := by
  induction cascade with
  | asleep => exact Orderly.of_apart (.of_same rfl rfl rfl)
  | unclear judged =>
    obtain ⟨events, hushed⟩ := Hushed.of_aside judged.aside
    exact ⟨events, hushed.orderly⟩
  | broken judged | steady judged =>
    obtain ⟨events, hushed⟩ := Hushed.of_aside judged.aside
    exact ⟨events, (hushed.modify _ _).orderly⟩
  | tried judged _ attempt concluded =>
    obtain ⟨events, orderly, _⟩ := judged.tried attempt.aside concluded
    exact ⟨events, orderly⟩
  | wrote judged _ writing _ aside _ concluded ih =>
    obtain ⟨_, inside⟩ := ih
    obtain ⟨events, orderly, _⟩ := judged.wrote writing.aside inside aside concluded
    exact ⟨events, orderly⟩
  | unchanged => exact Orderly.of_apart (.of_same rfl rfl rfl)
  | changed _ _ ih =>
    obtain ⟨events, inside⟩ := ih
    exact ⟨events, { inside with }⟩
  | nil => exact Orderly.of_apart (.of_same rfl rfl rfl)
  | cons _ _ first rest =>
    obtain ⟨_, first⟩ := first
    obtain ⟨_, rest⟩ := rest
    exact ⟨_, first.trans rest⟩
  | stop _ first => exact first
  | refused verdict => exact ⟨_, .of_refused verdict⟩
  | taken verdict _ ih =>
    obtain ⟨_, inside⟩ := ih
    exact ⟨_, .of_taken verdict inside⟩

end Cascade

/-! ## Between commands -/

theorem Rewired.orderly {id : ListenerId} {e e' : Engine σ} (rewired : Rewired id e e') :
    ∃ events, (∀ event ∈ events, event.isSetup) ∧ Orderly e events e' := by
  obtain ⟨_, _, events, _, setup, rfl⟩ := rewired
  exact ⟨events, setup, .of_same rfl rfl fun event member =>
    Event.isApart_of_isSetup (setup event member)⟩

theorem Step.orderly {checked : List ListenerId} {e e' : Engine σ}
    {result : Except ScriptError Unit} (step : Step checked e result e') :
    ∃ events, Orderly e events e' := by
  cases step with
  | idle => exact Orderly.of_apart (.of_same rfl rfl rfl)
  | write cascade | check cascade => exact cascade.orderly
  | advance cascade =>
    obtain ⟨events, inside⟩ := cascade.orderly
    exact ⟨events, { inside with }⟩
  | activate _ _ rewired _ cascade =>
    obtain ⟨_, _, before⟩ := rewired.orderly
    obtain ⟨_, inside⟩ := cascade.orderly
    exact ⟨_, (before.modify _ _).trans inside⟩
  | giveUp _ _ rewired =>
    obtain ⟨events, _, orderly⟩ := rewired.orderly
    exact ⟨events, orderly⟩
  | deactivate _ rewired =>
    obtain ⟨events, _, orderly⟩ := rewired.orderly
    exact ⟨events, orderly.modify _ _⟩

theorem Step.bare {checked : List ListenerId} {e e' : Engine σ}
    {result : Except ScriptError Unit} (step : Step checked e result e') (bare : e.devices = []) :
    e'.devices = [] := by
  cases step with
  | idle => exact bare
  | write cascade | check cascade | advance cascade => exact cascade.framed.devices.trans bare
  | activate _ _ rewired _ cascade =>
    exact cascade.framed.devices.trans
      ((devices_modifyRule _ _ _).trans (rewired.bare bare))
  | giveUp _ _ rewired => exact rewired.bare bare
  | deactivate _ rewired => exact (devices_modifyRule _ _ _).trans (rewired.bare bare)

/-- No callback is pending, and there are no devices. -/
structure AtRest (e : Engine σ) : Prop where
  bare : e.devices = []
  idle : e.dispatcher.pending = []
  shown : queueAfter [] e.journal = []

theorem AtRest.of_orderly {e e' : Engine σ} {events : List Event} (atRest : AtRest e)
    (orderly : Orderly e events e') (bare : e'.devices = []) : AtRest e' := by
  have idle : e'.dispatcher.pending = [] := by
    rcases orderly.keptOrDropped with kept | dropped
    · exact kept.trans atRest.idle
    · exact dropped
  have shown := orderly.shown
  rw [atRest.idle] at shown
  refine ⟨bare, idle, ?_⟩
  rw [orderly.journal, queueAfter_append, atRest.shown, shown, idle]

theorem AtRest.rewired {e e' : Engine σ} {id : ListenerId} (atRest : AtRest e)
    (rewired : Rewired id e e') (f : Rule → Rule) : AtRest (e'.modifyRule id f) := by
  obtain ⟨_, _, orderly⟩ := rewired.orderly
  exact atRest.of_orderly (orderly.modify id f)
    ((devices_modifyRule e' id f).trans (rewired.bare atRest.bare))

theorem AtRest.step {checked : List ListenerId} {e e' : Engine σ}
    {result : Except ScriptError Unit} (atRest : AtRest e) (step : Step checked e result e') :
    AtRest e' := by
  obtain ⟨_, orderly⟩ := step.orderly
  exact atRest.of_orderly orderly (step.bare atRest.bare)

theorem Reached.atRest {accepted : Reply → Prop} {e : Engine σ} (reached : Reached accepted e) :
    AtRest e := by
  refine (reached.invariant (fun _ => True) AtRest (fun _ _ _ _ => trivial)
    (fun _ _ => ⟨rfl, rfl, rfl⟩) ?_ ?_).2
  · rintro e rule ⟨bare, idle, shown⟩ -
    exact ⟨bare, idle, shown⟩
  · exact fun _ atRest _ step => atRest.step step

end Engine

end SignalRules
