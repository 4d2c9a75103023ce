import SignalRules.Proofs.Cycles
import SignalRules.Proofs.Hosting

/-! # Whose error it is

An error that tells of no cycle breaks a single rule, the innermost of those that were being checked
when it came up. When the callback of that rule ends the dispatcher counts a failure, and by the
count all rules further up the chain see that the error is not theirs.
-/

namespace SignalRules

/-- The error tells of a cycle. -/
def ScriptError.isCircular : ScriptError → Bool
  | .dispatch (.circular _ _) => true
  | _ => false

theorem ScriptError.isCircular_intoRuntime (error : ScriptError) :
    error.intoRuntime.isCircular = error.isCircular := by
  unfold intoRuntime
  split <;> rfl

/-- The callback ended with an error. -/
def Event.failure? : Event → Option (Callback × ScriptError)
  | .left callback (.error error) _ => some (callback, error)
  | _ => none

/-- The callbacks that ended with an error, each with its error, in the order in which they
ended. -/
def failedCallbacks (events : List Event) : List (Callback × ScriptError) :=
  events.filterMap Event.failure?

theorem failedCallbacks_append (first rest : List Event) :
    failedCallbacks (first ++ rest) = failedCallbacks first ++ failedCallbacks rest :=
  List.filterMap_append

theorem Event.failure?_of_isApart {event : Event} (apart : event.isApart) :
    event.failure? = none := by
  cases event <;> first | rfl | cases apart

theorem failedCallbacks_of_isApart {events : List Event} (apart : ∀ event ∈ events, event.isApart) :
    failedCallbacks events = [] :=
  List.filterMap_eq_nil_iff.2 fun event member => Event.failure?_of_isApart (apart event member)

namespace Dispatcher

/-- No chain is being given up because of a cycle. -/
def Calm (d : Dispatcher) : Prop :=
  d.pending = [] ∨ d.circular = false

theorem Calm.refresh {d : Dispatcher} (calm : d.Calm) : d.refresh.circular = false := by
  unfold Dispatcher.refresh
  rcases calm with idle | calm
  · simp [idle]
  · split
    · rfl
    · exact calm

theorem Calm.enter_of_ok {d : Dispatcher} (calm : d.Calm) {callback : Callback}
    (taken : (d.enter callback).2 = .ok ()) : (d.enter callback).1.circular = false := by
  obtain ⟨absent, room⟩ := (enter_eq_ok_iff d callback).1 taken
  rw [enter, if_neg absent, if_neg (Nat.not_le.2 room)]
  exact calm.refresh

/-- A callback that is refused would have closed a cycle, or there was no room for it. -/
theorem enter_of_error {d : Dispatcher} {callback : Callback} {error : DispatchError}
    (refused : (d.enter callback).2 = .error error) :
    (ScriptError.dispatch error).isCircular = true ∨
      error = .full d.limit callback.signal ∧ d.limit ≤ d.pending.length ∧
        (d.enter callback).1 = d.refresh := by
  unfold enter at refused ⊢
  split at refused
  · cases refused
    exact .inl rfl
  · rename_i absent
    split at refused
    · rename_i full
      cases refused
      rw [if_neg absent, if_pos full]
      exact .inr ⟨rfl, full, rfl⟩
    · cases refused

end Dispatcher

namespace Engine

variable {σ : Type}

/-- An action that fails with an error leaves it to others if a failure was counted meanwhile, and
breaks its rule if not. -/
theorem conclude_failed {e e' : Engine σ} {id : ListenerId} {before : Nat} {error : ScriptError}
    {result : Except ScriptError Unit}
    (concluded : e.conclude id before (.failed error) = (result, e')) :
    (e.dispatcher.failures ≠ before ∧ result = .error error ∧ e' = e) ∨
      (e.dispatcher.failures = before ∧ result = .error error.intoRuntime ∧
        e' = e.breakDown id error.intoRuntime) := by
  rw [conclude] at concluded
  split at concluded
  · rename_i counted
    cases concluded
    exact .inl ⟨counted, rfl, rfl⟩
  · rename_i uncounted
    cases concluded
    exact .inr ⟨Decidable.not_not.1 uncounted, rfl, rfl⟩

theorem failed_of_concluded {e e' : Engine σ} {id : ListenerId} {before : Nat}
    {error : ScriptError} {outcome : Outcome Expr.Completion}
    (concluded : e.conclude id before outcome = (.error error, e')) :
    ∃ cause, outcome = .failed cause := by
  cases outcome with
  | ready c => cases c <;> cases concluded
  | interrupted _ => cases concluded
  | failed cause => exact ⟨cause, rfl⟩

/-! ## Cycles -/

/-- A callback has been refused meanwhile that would have closed a cycle. -/
def FindsCycle (e e' : Engine σ) : Prop :=
  ∃ events, e'.journal = e.journal ++ events ∧ ∃ event ∈ events, event.loop? ≠ none

theorem FindsCycle.within {a b c d : Engine σ} (found : FindsCycle b c)
    (before : a.journal <+: b.journal) (after : c.journal <+: d.journal) : FindsCycle a d := by
  obtain ⟨events, journal, event, member, loop⟩ := found
  obtain ⟨first, journal'⟩ := before
  obtain ⟨last, journal''⟩ := after
  refine ⟨first ++ events ++ last, ?_, event, by simp [member], loop⟩
  rw [← journal'', journal, ← journal', List.append_assoc, List.append_assoc, List.append_assoc]

theorem FindsCycle.refused {e : Engine σ} {callback : Callback} {error : DispatchError}
    (circular : (ScriptError.dispatch error).isCircular = true) :
    FindsCycle e (e.refuse callback error) := by
  cases error with
  | circular _ _ => exact ⟨[_], rfl, _, List.mem_singleton_self _, nofun⟩
  | full _ _ => cases circular

/-- A cycle that comes up while a callback is carried out. -/
theorem FindsCycle.around {e e₁ : Engine σ} {callback : Callback}
    {result : Except ScriptError Unit} (found : FindsCycle (e.takeUp callback) e₁) :
    FindsCycle e (e₁.leave callback result) :=
  found.within ⟨[_], rfl⟩ ⟨[_], rfl⟩

theorem Aside.grown {e e' : Engine σ} (aside : Aside e e') : e.journal <+: e'.journal := by
  obtain ⟨_, events, _, rfl⟩ := aside
  exact ⟨events, rfl⟩

theorem Judged.grown {e e₁ e₂ : Engine σ} {id : ListenerId} {rule : Rule} {truth : Outcome Bool}
    (judged : Judged e id rule truth e₁) {held : Bool} (aside : Aside (e₁.hold id held) e₂) :
    e.journal <+: e₂.journal := by
  obtain ⟨events, hushed⟩ := judged.hushed aside
  exact ⟨events, hushed.journal.symm⟩

theorem grown_conclude {e e' : Engine σ} {id : ListenerId} {before : Nat}
    {outcome : Outcome Expr.Completion} {result : Except ScriptError Unit}
    (concluded : (e.note (.fired id outcome)).conclude id before outcome = (result, e')) :
    e.journal <+: e'.journal :=
  ⟨_, (orderly_conclude concluded).journal.symm⟩

theorem Cascade.grown {task : Task} {e e' : Engine σ} {result : Except ScriptError Unit}
    (cascade : Cascade task e result e') : e.journal <+: e'.journal := by
  obtain ⟨events, blame⟩ := cascade.blame
  exact ⟨events, blame.orderly.journal.symm⟩

/-- A cycle ends every task, and with the error for the callback that would have closed it. -/
theorem Cascade.looped_of_findsCycle {task : Task} {e e' : Engine σ}
    {result : Except ScriptError Unit} (cascade : Cascade task e result e')
    (found : FindsCycle e e') : ∃ events added callback, e'.journal = e.journal ++ events ∧
      Looped task.checked e events result e' added callback := by
  obtain ⟨events, journal, event, member, loop⟩ := found
  obtain ⟨events', blame⟩ := cascade.blame
  obtain rfl := List.append_cancel_left (journal.symm.trans blame.orderly.journal)
  rcases blame.looped with none | ⟨added, callback, looped⟩
  · exact absurd (eq_none_of_occurrences none event member) loop
  · exact ⟨events, added, callback, journal, looped⟩

/-- As long as no cycle comes up, the dispatcher knows of none. -/
theorem Cascade.circular_eq_or_findsCycle {task : Task} {e e' : Engine σ}
    {result : Except ScriptError Unit} (cascade : Cascade task e result e')
    (start : e.dispatcher.circular = false) :
    e'.dispatcher.circular = false ∨ FindsCycle e e' := by
  induction cascade with
  | asleep | unchanged | nil => exact .inl start
  | unclear judged =>
    rw [judged.aside.dispatcher]
    exact .inl start
  | broken judged | steady judged =>
    simp only [breakDown, hold, dispatcher_modifyRule, judged.aside.dispatcher]
    exact .inl start
  | tried judged _ attempt concluded =>
    rw [dispatcher_conclude concluded]
    exact .inl ((congrArg Dispatcher.circular (judged.dispatcher attempt.aside)).trans start)
  | wrote judged _ writing _ aside _ concluded ih =>
    rcases ih ((congrArg Dispatcher.circular (judged.dispatcher writing.aside)).trans start) with
      none | found
    · rw [dispatcher_conclude concluded]
      exact .inl ((congrArg Dispatcher.circular aside.dispatcher).trans none)
    · exact .inr (found.within (judged.grown writing.aside)
        (aside.grown.trans (grown_conclude concluded)))
  | changed _ _ ih => exact ih start
  | cons first rest ih ihRest =>
    rcases ih start with none | found
    · exact (ihRest none).imp_right (·.within first.grown (List.prefix_refl _))
    · exact .inr (found.within (List.prefix_refl _) rest.grown)
  | stop _ ih => exact ih start
  | @refused e callback error verdict =>
    rcases Dispatcher.enter_of_error verdict with circular | ⟨_, _, same⟩
    · exact .inr (.refused circular)
    · left
      change (e.dispatcher.enter callback).1.circular = false
      rw [same]
      exact Dispatcher.Calm.refresh (.inr start)
  | @taken e e₁ callback result verdict _ ih =>
    rcases ih (Dispatcher.Calm.enter_of_ok (.inr start) verdict) with none | found
    · left
      cases result <;> exact none
    · exact .inr found.around

theorem Cascade.calm {task : Task} {e e' : Engine σ} (cascade : Cascade task e (.ok ()) e')
    (calm : e.dispatcher.Calm) : e'.dispatcher.Calm := by
  rcases calm with idle | start
  · exact .inl ((cascade.smooth rfl).1.trans idle)
  · rcases cascade.circular_eq_or_findsCycle start with none | found
    · exact .inr none
    · obtain ⟨_, _, _, _, looped⟩ := cascade.looped_of_findsCycle found
      cases looped.result

/-! ## What the journal tells -/

/-- No callback has ended with an error meanwhile. -/
def Unfailing (e e' : Engine σ) : Prop :=
  ∃ events, e'.journal = e.journal ++ events ∧ failedCallbacks events = []

/-- Of the callbacks that have ended with an error meanwhile this was the first, and this was its
error. -/
def FirstToFail (e e' : Engine σ) (callback : Callback) (error : ScriptError) : Prop :=
  ∃ events rest, e'.journal = e.journal ++ events ∧
    failedCallbacks events = (callback, error) :: rest

namespace Unfailing

theorem of_journal {e e' : Engine σ} (same : e'.journal = e.journal) : Unfailing e e' :=
  ⟨[], by rw [same, List.append_nil], rfl⟩

theorem trans {a b c : Engine σ} (ab : Unfailing a b) (bc : Unfailing b c) : Unfailing a c := by
  obtain ⟨first, journal, none⟩ := ab
  obtain ⟨rest, journal', none'⟩ := bc
  refine ⟨first ++ rest, by rw [journal', journal, List.append_assoc], ?_⟩
  rw [failedCallbacks_append, none, none']
  rfl

theorem grown {e e' : Engine σ} (unfailing : Unfailing e e') : e.journal <+: e'.journal := by
  obtain ⟨events, journal, _⟩ := unfailing
  exact ⟨events, journal.symm⟩

theorem of_aside {e e' : Engine σ} (aside : Aside e e') : Unfailing e e' := by
  obtain ⟨_, events, asides, rfl⟩ := aside
  exact ⟨events, rfl,
    failedCallbacks_of_isApart fun event member => Event.isApart_of_isAside (asides event member)⟩

theorem modify {e e' : Engine σ} (unfailing : Unfailing e e') (id : ListenerId)
    (f : Rule → Rule) : Unfailing e (e'.modifyRule id f) := by
  rw [modifyRule_eq]
  exact unfailing

theorem note {e e' : Engine σ} (unfailing : Unfailing e e') {event : Event}
    (quiet : event.failure? = none) : Unfailing e (e'.note event) :=
  unfailing.trans ⟨[event], rfl, List.filterMap_eq_nil_iff.2 (by simpa using quiet)⟩

theorem conclude {e e' e'' : Engine σ} (unfailing : Unfailing e e') {id : ListenerId}
    {before : Nat} {outcome : Outcome Expr.Completion} {result : Except ScriptError Unit}
    (concluded : (e'.note (.fired id outcome)).conclude id before outcome = (result, e'')) :
    Unfailing e e'' := by
  obtain ⟨_, _, rfl⟩ := settled_of_concluded concluded
  exact (unfailing.note rfl).modify _ _

theorem judged {e e₁ e₂ : Engine σ} {id : ListenerId} {rule : Rule} {truth : Outcome Bool}
    (judged : Judged e id rule truth e₁) {held : Bool} (aside : Aside (e₁.hold id held) e₂) :
    Unfailing e e₂ :=
  ((of_aside judged.aside).modify _ _).trans (of_aside aside)

end Unfailing

namespace FirstToFail

variable {a b c : Engine σ} {callback : Callback} {error : ScriptError}

theorem after (before : Unfailing a b) (failed : FirstToFail b c callback error) :
    FirstToFail a c callback error := by
  obtain ⟨first, journal, none⟩ := before
  obtain ⟨events, rest, journal', failed⟩ := failed
  refine ⟨first ++ events, rest, by rw [journal', journal, List.append_assoc], ?_⟩
  rw [failedCallbacks_append, none, failed]
  rfl

theorem andThen (failed : FirstToFail a b callback error)
    (grown : b.journal <+: c.journal) : FirstToFail a c callback error := by
  obtain ⟨events, rest, journal, failed⟩ := failed
  obtain ⟨more, journal'⟩ := grown
  refine ⟨events ++ more, rest ++ failedCallbacks more, ?_, ?_⟩
  · rw [← journal', journal, List.append_assoc]
  · rw [failedCallbacks_append, failed]
    rfl

end FirstToFail

/-- Where all went well, all callbacks did. -/
theorem Cascade.unfailing {task : Task} {e e' : Engine σ} {result : Except ScriptError Unit}
    (cascade : Cascade task e result e') (ok : result = .ok ()) : Unfailing e e' := by
  induction cascade with
  | asleep | unchanged | nil => exact .of_journal rfl
  | unclear judged => exact .of_aside judged.aside
  | broken | stop | refused => cases ok
  | steady judged => exact (Unfailing.of_aside judged.aside).modify _ _
  | tried judged _ attempt concluded =>
    exact (Unfailing.judged judged attempt.aside).conclude concluded
  | wrote judged _ writing _ aside outcome_eq concluded ih =>
    subst ok
    have inside := ih (written_of_concluded (outcome_eq ▸ concluded))
    have before := Unfailing.judged judged writing.aside
    exact ((before.trans inside).trans (.of_aside aside)).conclude concluded
  | changed _ _ ih => exact ih ok
  | cons _ _ first rest => exact (first rfl).trans (rest ok)
  | @taken e e₁ callback result _ _ ih =>
    subst ok
    have begun : Unfailing e (e.takeUp callback) := ⟨[_], rfl, rfl⟩
    have ended : Unfailing e₁ (e₁.leave callback (.ok ())) := ⟨[_], rfl, rfl⟩
    exact (begun.trans (ih rfl)).trans ended

/-! ## Parts in which nothing goes wrong -/

/-- Nothing has failed meanwhile, neither a callback nor a rule. -/
structure Uneventful (e e' : Engine σ) : Prop where
  unfailing : Unfailing e e'
  framed : Framed e e'
  failures : e'.dispatcher.failures = e.dispatcher.failures
  unbroken : ∀ id, e'.HasFailed id ↔ e.HasFailed id

namespace Uneventful

theorem refl (e : Engine σ) : Uneventful e e where
  unfailing := .of_journal rfl
  framed := .refl e
  failures := rfl
  unbroken _ := .rfl

theorem trans {a b c : Engine σ} (ab : Uneventful a b) (bc : Uneventful b c) : Uneventful a c where
  unfailing := ab.unfailing.trans bc.unfailing
  framed := ab.framed.trans bc.framed
  failures := bc.failures.trans ab.failures
  unbroken id := (bc.unbroken id).trans (ab.unbroken id)

theorem of_aside {e e' : Engine σ} (aside : Aside e e') : Uneventful e e' where
  unfailing := .of_aside aside
  framed := .of_aside aside
  failures := congrArg Dispatcher.failures aside.dispatcher
  unbroken id := hasFailed_of_same (congrFun aside.rule?_eq id)

theorem note (e : Engine σ) {event : Event} (quiet : event.failure? = none) :
    Uneventful e (e.note event) where
  unfailing := (Unfailing.of_journal rfl).note quiet
  framed := (Framed.refl e).note event
  failures := rfl
  unbroken _ := .rfl

theorem put (e : Engine σ) (name : String) (value : Value) :
    Uneventful e { e with globals := e.globals.put name value } where
  unfailing := .of_journal rfl
  framed := .put e name value
  failures := rfl
  unbroken _ := .rfl

theorem refuse (e : Engine σ) (callback : Callback) (error : DispatchError) :
    Uneventful e (e.refuse callback error) where
  unfailing := ⟨[_], rfl, rfl⟩
  framed := .refuse e callback error
  failures := Dispatcher.failures_enter e.dispatcher callback
  unbroken _ := .rfl

theorem takeUp (e : Engine σ) (callback : Callback) : Uneventful e (e.takeUp callback) where
  unfailing := ⟨[_], rfl, rfl⟩
  framed := .takeUp e callback
  failures := Dispatcher.failures_enter e.dispatcher callback
  unbroken _ := .rfl

end Uneventful

theorem Judged.uneventful {e e₁ e₂ : Engine σ} {id : ListenerId} {rule : Rule}
    {truth : Outcome Bool} (judged : Judged e id rule truth e₁) {held : Bool}
    (aside : Aside (e₁.hold id held) e₂) : Uneventful e e₂ where
  unfailing := .judged judged aside
  framed := (judged.framed_hold held).trans (.of_aside aside)
  failures := congrArg Dispatcher.failures (judged.dispatcher aside)
  unbroken := judged.hasFailed aside

theorem Cascade.uneventful {task : Task} {e e' : Engine σ}
    (cascade : Cascade task e (.ok ()) e') : Uneventful e e' where
  unfailing := cascade.unfailing rfl
  framed := cascade.framed
  failures := (cascade.smooth rfl).2
  unbroken := by
    obtain ⟨_, blame⟩ := cascade.blame
    exact blame.unbroken rfl

/-! ## Blame -/

def IsActive (e : Engine σ) (id : ListenerId) : Prop :=
  ∃ rule, e.rule? id = some rule ∧ rule.state = .active

theorem Framed.was_active {e e' : Engine σ} (framed : Framed e e') {id : ListenerId}
    (active : e'.IsActive id) : e.IsActive id := by
  obtain ⟨rule', found', state⟩ := active
  obtain ⟨rule, found, follows⟩ := framed.was_found found'
  exact ⟨rule, found, follows.was_active state⟩

/-- The error breaks this rule, which was active, and no other. -/
structure BreaksOnly (culprit : ListenerId) (error : ScriptError) (e e' : Engine σ) : Prop where
  active : e.IsActive culprit
  failed : e'.FailedBy culprit error
  others : ∀ id ≠ culprit, e'.HasFailed id ↔ e.HasFailed id

/-- Checked on the first engine, the rule itself raises the error, and this leads to the second. -/
inductive Raises (id : ListenerId) : Engine σ → ScriptError → Engine σ → Prop where
  | condition {e e₁ : Engine σ} {rule : Rule} {error : ScriptError}
    (judged : Judged e id rule (.failed error) e₁) :
    Raises id e error.intoRuntime (e₁.breakDown id error.intoRuntime)
  /-- The arguments of its action fail, or the action itself. -/
  | action {e e₁ e₂ : Engine σ} {rule : Rule} {error : ScriptError}
    (judged : Judged e id rule (.ready true) e₁) (armed : rule.held = false)
    (attempt : Attempt (e₁.hold id true) rule.action (.failed error) e₂) :
    Raises id e error.intoRuntime
      ((e₂.note (.fired id (.failed error))).breakDown id error.intoRuntime)
  /-- The queue has no room for a callback that the action gives rise to. -/
  | full {e e₁ e₂ e₃ e₄ : Engine σ} {rule : Rule} {name signal : String} {value : Value}
    {error : ScriptError} (judged : Judged e id rule (.ready true) e₁) (armed : rule.held = false)
    (writing : Writing (e₁.hold id true) rule.action name value e₂)
    (error_eq : error = .dispatch (.full e.dispatcher.limit signal))
    (noRoom : e.dispatcher.limit ≤ e.dispatcher.pending.length)
    (refused : Cascade (.write name value) e₂ (.error error) e₃) (aside : Aside e₃ e₄) :
    Raises id e error ((e₄.note (.fired id (.failed error))).breakDown id error)

/-- In the course of what has happened the rule itself raised the error when it was checked. -/
def Raised (id : ListenerId) (error : ScriptError) (e e' : Engine σ) : Prop :=
  ∃ before after : Engine σ, e.journal <+: before.journal ∧ Raises id before error after ∧
    after.journal <+: e'.journal

/-- What breaks one rule after a part in which no rule was broken breaks one in all. -/
theorem BreaksOnly.after {culprit : ListenerId} {error : ScriptError} {e e₁ e' : Engine σ}
    (breaks : BreaksOnly culprit error e₁ e') (before : Uneventful e e₁) :
    BreaksOnly culprit error e e' where
  active := before.framed.was_active breaks.active
  failed := breaks.failed
  others id ne := (breaks.others id ne).trans (before.unbroken id)

theorem BreaksOnly.of_same {culprit : ListenerId} {error : ScriptError} {e e₁ e' : Engine σ}
    (breaks : BreaksOnly culprit error e e₁) (same : e'.rule? = e₁.rule?) :
    BreaksOnly culprit error e e' where
  active := breaks.active
  failed := breaks.failed.of_same (congrFun same culprit)
  others id ne := (hasFailed_of_same (congrFun same id)).trans (breaks.others id ne)

/-- To break down a rule that was found active breaks it, and no other. -/
theorem Judged.breaksOnly {e e₁ e' : Engine σ} {id : ListenerId} {rule : Rule}
    {truth : Outcome Bool} (judged : Judged e id rule truth e₁) (before : Uneventful e e')
    (error : ScriptError) : BreaksOnly id error e (e'.breakDown id error) where
  active := ⟨rule, judged.found, judged.active⟩
  failed := by
    obtain ⟨_, found, _⟩ := before.framed.rules judged.found
    exact ⟨_, rule?_modifyRule_self found _, rfl, rfl⟩
  others other ne := by
    rw [breakDown, hasFailed_of_same (rule?_modifyRule_of_ne e' ne _)]
    exact before.unbroken other

theorem Raised.within {id : ListenerId} {error : ScriptError} {a b c d : Engine σ}
    (raised : Raised id error b c) (before : a.journal <+: b.journal)
    (after : c.journal <+: d.journal) : Raised id error a d := by
  obtain ⟨start, stop, begun, raises, ended⟩ := raised
  exact ⟨start, stop, before.trans begun, raises, ended.trans after⟩

/-- The callback was the first that ended with an error, and the failure has been counted. -/
structure Passed (callback : Callback) (error : ScriptError) (e e' : Engine σ) : Prop where
  first : FirstToFail e e' callback error
  counted : e.dispatcher.failures < e'.dispatcher.failures
  raised : Raised callback.listener error e e'
  breaks : BreaksOnly callback.listener error e e'

namespace Passed

variable {e e₁ e' : Engine σ} {callback : Callback} {error : ScriptError}

theorem after (passed : Passed callback error e₁ e') (before : Uneventful e e₁) :
    Passed callback error e e' where
  first := passed.first.after before.unfailing
  counted := Nat.lt_of_le_of_lt (Nat.le_of_eq before.failures.symm) passed.counted
  raised := passed.raised.within before.unfailing.grown (List.prefix_refl _)
  breaks := passed.breaks.after before

theorem andThen (passed : Passed callback error e e₁) (grown : e₁.journal <+: e'.journal)
    (counted : e₁.dispatcher.failures ≤ e'.dispatcher.failures) (same : e'.rule? = e₁.rule?) :
    Passed callback error e e' where
  first := passed.first.andThen grown
  counted := Nat.lt_of_lt_of_le passed.counted counted
  raised := passed.raised.within (List.prefix_refl _) grown
  breaks := passed.breaks.of_same same

end Passed

/-- Where the error of a task comes from, if it tells of no cycle. -/
inductive Fate : Task → Engine σ → ScriptError → Engine σ → Prop where
  /-- The rule that is checked raises it. -/
  | own {e e' : Engine σ} {id : ListenerId} {error : ScriptError}
    (unfailing : Unfailing e e') (uncounted : e'.dispatcher.failures = e.dispatcher.failures)
    (raises : Raises id e error e') (breaks : BreaksOnly id error e e') :
    Fate (.check id) e error e'
  /-- A callback finds the queue full, and the error is nobody's yet. -/
  | full {task : Task} {e e' : Engine σ} {signal : String} {error : ScriptError}
    (unchecked : task.checked = []) (error_eq : error = .dispatch (.full e.dispatcher.limit signal))
    (noRoom : e.dispatcher.limit ≤ e.dispatcher.pending.length)
    (uneventful : Uneventful e e') : Fate task e error e'
  | passed {task : Task} {e e' : Engine σ} {callback : Callback} {error : ScriptError}
    (passed : Passed callback error e e') : Fate task e error e'

namespace Fate

variable {e e₁ e₂ e₃ e₄ e' : Engine σ} {id : ListenerId} {rule : Rule} {error : ScriptError}

/-- Where nothing had gone wrong before, the error is that of the rule which breaks down. -/
theorem brokenDown {truth : Outcome Bool} (judged : Judged e id rule truth e₁)
    (before : Uneventful e e₂) (raises : Raises id e error (e₂.breakDown id error)) :
    Fate (.check id) e error (e₂.breakDown id error) := by
  refine .own (before.unfailing.modify _ _) ?_ raises (judged.breaksOnly before error)
  rw [breakDown, dispatcher_modifyRule]
  exact before.failures

theorem tried {cause : ScriptError} (judged : Judged e id rule (.ready true) e₁)
    (armed : rule.held = false)
    (attempt : Attempt (e₁.hold id true) rule.action (.failed cause) e₂)
    (concluded : (e₂.note (.fired id (.failed cause))).conclude id e.dispatcher.failures
      (.failed cause) = (.error error, e')) : Fate (.check id) e error e' := by
  have before : Uneventful e (e₂.note (.fired id (.failed cause))) :=
    (judged.uneventful attempt.aside).trans (.note e₂ rfl)
  rcases conclude_failed concluded with ⟨counted, _, _⟩ | ⟨_, same, rfl⟩
  · exact absurd before.failures counted
  · cases same
    exact .brokenDown judged before (.action judged armed attempt)

/-- A rule is broken by an error of its write that is nobody's yet, and passes any other on. -/
theorem wrote {name : String} {value : Value} {cause : ScriptError}
    (judged : Judged e id rule (.ready true) e₁) (armed : rule.held = false)
    (writing : Writing (e₁.hold id true) rule.action name value e₂)
    (inner : Cascade (.write name value) e₂ (.error cause) e₃)
    (fate : Fate (.write name value) e₂ cause e₃) (aside : Aside e₃ e₄)
    (concluded : (e₄.note (.fired id (.failed cause))).conclude id e.dispatcher.failures
      (.failed cause) = (.error error, e')) : Fate (.check id) e error e' := by
  have before : Uneventful e e₂ := judged.uneventful writing.aside
  have after : Uneventful e₃ (e₄.note (.fired id (.failed cause))) :=
    (Uneventful.of_aside aside).trans (.note e₄ rfl)
  cases fate with
  | full _ error_eq noRoom nothing =>
    have whole := (before.trans nothing).trans after
    rw [judged.dispatcher writing.aside] at error_eq noRoom
    subst error_eq
    rcases conclude_failed concluded with ⟨counted, _, _⟩ | ⟨_, same, rfl⟩
    · exact absurd whole.failures counted
    · cases same
      exact .brokenDown judged whole (.full judged armed writing rfl noRoom inner aside)
  | passed passed =>
    have passed := (passed.after before).andThen after.unfailing.grown
      (Nat.le_of_eq after.failures.symm) aside.rule?_eq
    rcases conclude_failed concluded with ⟨_, same, rfl⟩ | ⟨uncounted, _, _⟩
    · cases same
      exact .passed passed
    · exact absurd uncounted (Nat.ne_of_gt passed.counted)

/-- What comes after a part in which nothing goes wrong comes of it all. -/
theorem after {task task' : Task} (fate : Fate task e₁ error e') (unchecked : task.checked = [])
    (unchecked' : task'.checked = []) (before : Uneventful e e₁)
    (pending : e₁.dispatcher.pending = e.dispatcher.pending) : Fate task' e error e' := by
  cases fate with
  | own => cases unchecked
  | full _ error_eq noRoom nothing =>
    rw [before.framed.limit] at error_eq noRoom
    rw [pending] at noRoom
    exact .full unchecked' error_eq noRoom (before.trans nothing)
  | passed passed => exact .passed (passed.after before)

/-- When a callback ends with an error and no cycle is known, the failure is counted. -/
theorem taken {callback : Callback} (noCycle : e₁.dispatcher.circular = false)
    (fate : Fate (.check callback.listener) (e.takeUp callback) error e₁) :
    Fate (.schedule callback) e error (e₁.leave callback (.error error)) := by
  have counted : (e₁.leave callback (.error error)).dispatcher.failures =
      e₁.dispatcher.failures + 1 := if_neg (by simp [noCycle])
  have ended : e₁.journal <+: (e₁.leave callback (.error error)).journal := ⟨[_], rfl⟩
  cases fate with
  | own unfailing uncounted raises breaks =>
    have last : FirstToFail e₁ (e₁.leave callback (.error error)) callback error :=
      ⟨[_], [], rfl, rfl⟩
    have passed : Passed callback error (e.takeUp callback) (e₁.leave callback (.error error)) :=
      { first := last.after unfailing
        counted := by omega
        raised := ⟨_, _, List.prefix_refl _, raises, ended⟩
        breaks := breaks.of_same rfl }
    exact .passed (passed.after (.takeUp e callback))
  | full unchecked => cases unchecked
  | passed passed =>
    have within := passed.after (.takeUp e callback)
    exact .passed (within.andThen ended (by omega) rfl)

end Fate

/-- In the course of every task in which no cycle comes up, an error breaks the rule that raises it,
or it is nobody's yet. -/
theorem Cascade.fate_or_findsCycle {task : Task} {e e' : Engine σ}
    {result : Except ScriptError Unit} (cascade : Cascade task e result e')
    (calm : e.dispatcher.Calm) {error : ScriptError} (failed : result = .error error) :
    Fate task e error e' ∨ FindsCycle e e' := by
  induction cascade generalizing error with
  | asleep | unclear | steady | unchanged | nil => cases failed
  | broken judged =>
    cases failed
    exact .inl (.brokenDown judged (.of_aside judged.aside) (.condition judged))
  | tried judged armed attempt concluded =>
    subst failed
    obtain ⟨cause, rfl⟩ := failed_of_concluded concluded
    exact .inl (.tried judged armed attempt concluded)
  | @wrote e e₁ e₂ _ _ _ _ _ _ _ _ written _ judged armed writing inner aside outcome_eq concluded
      ih =>
    subst failed
    obtain ⟨cause, rfl⟩ := failed_of_concluded concluded
    cases written with
    | ok _ => cases outcome_eq
    | error cause =>
      cases outcome_eq
      have still : e₂.dispatcher = e.dispatcher := judged.dispatcher writing.aside
      rcases ih (still ▸ calm) rfl with fate | found
      · exact .inl (.wrote judged armed writing inner fate aside concluded)
      · exact .inr (found.within (judged.grown writing.aside)
          (aside.grown.trans (grown_conclude concluded)))
  | changed _ _ ih => exact (ih calm failed).imp_left (·.after rfl rfl (.put _ _ _) rfl)
  | cons first _ _ ih =>
    refine (ih (first.calm calm) failed).imp (fun fate => ?_) fun found => ?_
    · exact fate.after rfl rfl first.uneventful (first.smooth rfl).1
    · exact found.within first.grown (List.prefix_refl _)
  | stop _ ih => exact (ih calm failed).imp_left (·.after rfl rfl (.refl _) rfl)
  | @refused e callback _ verdict =>
    cases failed
    rcases Dispatcher.enter_of_error verdict with circular | ⟨rfl, noRoom, _⟩
    · exact .inr (.refused circular)
    · exact .inl (.full rfl rfl noRoom (.refuse e callback _))
  | taken verdict inner ih =>
    subst failed
    have start := calm.enter_of_ok verdict
    rcases inner.circular_eq_or_findsCycle start with noCycle | found
    · exact (ih (.inr start) rfl).imp (.taken noCycle) .around
    · exact .inr found.around

/-- In the course of every task, an error that is of no cycle breaks the rule that raises it, or it
is nobody's yet. -/
theorem Cascade.fate {task : Task} {e e' : Engine σ} {result : Except ScriptError Unit}
    (cascade : Cascade task e result e') (calm : e.dispatcher.Calm) {error : ScriptError}
    (failed : result = .error error) (ordinary : error.isCircular = false) :
    Fate task e error e' := by
  rcases cascade.fate_or_findsCycle calm failed with fate | found
  · exact fate
  · obtain ⟨_, _, _, _, looped⟩ := cascade.looped_of_findsCycle found
    rw [looped.result] at failed
    cases failed
    cases ordinary

/-! ## Checks in sessions -/

/-- The engines on which a rule can come to be checked: those of sessions, and in the midst of a
chain what they become by changes in which the dispatcher has no part, when a callback is taken up,
and when one has ended without an error. After an error nothing more is checked in a chain. -/
inductive Amid : Engine σ → Prop where
  | session {e : Engine σ} : Hosted e → Amid e
  | change {e e' : Engine σ} : Amid e → e'.dispatcher = e.dispatcher → AmongRules e' → Amid e'
  | takeUp {e : Engine σ} {callback : Callback} : Amid e →
    (e.dispatcher.enter callback).2 = .ok () → Amid (e.takeUp callback)
  | carryOut {e e' : Engine σ} {depth : Nat} {callback : Callback} : Amid e →
    schedule (handle depth) callback e = some (.ok (), e') → Amid e'

theorem Amid.calm {e : Engine σ} (amid : Amid e) : AmongRules e ∧ e.dispatcher.Calm := by
  induction amid with
  | session hosted => exact ⟨hosted.among, .inl hosted.idle⟩
  | change _ same among before => exact ⟨among, same ▸ before.2⟩
  | @takeUp e callback _ verdict before =>
    exact ⟨before.1.of_framed (.takeUp e callback), .inr (before.2.enter_of_ok verdict)⟩
  | carryOut _ ran before =>
    have cascade := (handle_follows _).schedule before.1 ran
    exact ⟨before.1.of_framed cascade.framed, cascade.calm before.2⟩

/-- Nothing keeps the first callback of a write from being taken up. -/
theorem Hosted.amid_called {e : Engine σ} (hosted : Hosted e) (room : 0 < e.dispatcher.limit)
    (name : String) (value : Value) (callback : Callback) :
    Amid ({ e with globals := e.globals.put name value }.takeUp callback) := by
  have written : Amid { e with globals := e.globals.put name value } :=
    .change (.session hosted) rfl (hosted.among.of_framed (.put e name value))
  have taken : (e.dispatcher.enter callback).2 = .ok () := by
    rw [Dispatcher.enter_eq_ok_iff, hosted.idle]
    exact ⟨List.not_mem_nil, room⟩
  exact .takeUp written taken

/-- Whose error it is that came of checking a rule. -/
structure Verdict (id : ListenerId) (error : ScriptError) (e e' : Engine σ)
    (culprit : ListenerId) : Prop where
  /-- The callback of the culprit was the first that failed. If none did it is the rule itself. -/
  innermost : (Unfailing e e' ∧ culprit = id) ∨
    ∃ callback, FirstToFail e e' callback error ∧ culprit = callback.listener
  raised : Raised culprit error e e'
  failed : e'.FailedBy culprit error
  alone : ∀ other, (e.IsActive other ∧ e'.HasFailed other) ↔ other = culprit
  others : ∀ other ≠ culprit, e'.HasFailed other ↔ e.HasFailed other
  notBadState : error.kind ≠ .badState

theorem Raises.notBadState {id : ListenerId} {error : ScriptError} {e e' : Engine σ}
    (raises : Raises id e error e') : error.kind ≠ .badState := by
  cases raises with
  | condition | action => exact ScriptError.kind_intoRuntime_ne_badState _
  | full _ _ _ error_eq =>
    subst error_eq
    exact nofun

theorem BreaksOnly.alone {culprit : ListenerId} {error : ScriptError} {e e' : Engine σ}
    (breaks : BreaksOnly culprit error e e') (other : ListenerId) :
    (e.IsActive other ∧ e'.HasFailed other) ↔ other = culprit := by
  constructor
  · rintro ⟨⟨rule, found, active⟩, failed⟩
    by_cases same : other = culprit
    · exact same
    · have unbroken : ¬e.HasFailed other :=
        not_hasFailed_of_state found (by rw [active]; exact nofun)
      exact absurd ((breaks.others other same).1 failed) unbroken
  · rintro rfl
    exact ⟨breaks.active, breaks.failed.hasFailed⟩

/-- The error of a check is that of one rule, unless it comes of a cycle. -/
theorem Fate.verdict {e e' : Engine σ} {id : ListenerId} {error : ScriptError}
    (fate : Fate (.check id) e error e') : ∃ culprit, Verdict id error e e' culprit := by
  cases fate with
  | own unfailing _ raises breaks =>
    refine ⟨id, .inl ⟨unfailing, rfl⟩, ?_, breaks.failed, breaks.alone, breaks.others,
      raises.notBadState⟩
    exact ⟨e, e', List.prefix_refl _, raises, List.prefix_refl _⟩
  | full unchecked => cases unchecked
  | @passed _ _ _ callback _ passed =>
    refine ⟨callback.listener, .inr ⟨callback, passed.first, rfl⟩, passed.raised,
      passed.breaks.failed, passed.breaks.alone, passed.breaks.others, ?_⟩
    obtain ⟨_, _, _, raises, _⟩ := passed.raised
    exact raises.notBadState

/-- If checking a rule ends in an error that is of no cycle, at whatever depth of a chain, the error
is that of one rule. -/
theorem ordinary_error_has_one_culprit {e e' : Engine σ} (amid : Amid e) {depth : Nat}
    {id : ListenerId} {error : ScriptError}
    (run : check (handle depth) id e = some (.error error, e'))
    (ordinary : error.isCircular = false) : ∃ culprit, Verdict id error e e' culprit := by
  obtain ⟨among, calm⟩ := amid.calm
  have cascade := (handle_follows depth).check among run
  exact (cascade.fate calm rfl ordinary).verdict

/-- The second rule divides by zero when the first one has set its signal. -/
def dividers : Engine Unit :=
  create {} ()
  |>.withRule ⟨1⟩ { condition := "(sig Signals.Go)", action := "(act Signals.Set 'A' 100)" }
  |>.withRule ⟨1⟩
    { condition := "(sig Signals.A)", action := "(act Signals.Set 'B' (div (sig Signals.A) 0))" }
  |>.afterAll (fun _ => True) 9 [.activate ⟨1⟩, .activate ⟨2⟩]

theorem hosted_dividers : Hosted dividers := by
  have reached : Reached (fun _ => True) dividers := by
    unfold dividers
    exact (((Reached.create {} ()).withRule _ _).withRule _ _).afterAll _ _
  exact reached.hosted

/-- The first of them has been called. -/
def dividersCalled : Engine Unit :=
  { dividers with globals := dividers.globals.put "Go" (.number (.ofInt 1)) }.takeUp
    ⟨"Signals.Go", ⟨1⟩⟩

theorem amid_dividersCalled : Amid dividersCalled := by
  unfold dividersCalled
  exact hosted_dividers.amid_called (by decide +kernel) _ _ _

def errorOf : Except ScriptError Unit → Option ScriptError
  | .ok _ => none
  | .error error => some error

/-- The error is that of the second rule, and the first one stays active. -/
theorem dividers_blame_second : ∃ e' : Engine Unit,
    check (handle 9) ⟨1⟩ dividersCalled = some (.error (.evaluation .divisionByZero), e') ∧
      Verdict ⟨1⟩ (.evaluation .divisionByZero) dividersCalled e' ⟨2⟩ ∧ e'.IsActive ⟨1⟩ := by
  have known : (check (handle 9) ⟨1⟩ dividersCalled).map (fun answer =>
      (errorOf answer.1, (answer.2.rule? ⟨1⟩).map Rule.state,
        (dividersCalled.rule? ⟨2⟩).map Rule.state, (answer.2.rule? ⟨2⟩).map Rule.state)) =
      some (some (.evaluation .divisionByZero), some .active, some .active, some .failed) := by
    decide +kernel
  obtain ⟨⟨result, e'⟩, run, same⟩ := Option.map_eq_some_iff.1 known
  simp only [Prod.mk.injEq] at same
  obtain ⟨error, upstream, before, after⟩ := same
  cases result with
  | ok _ => cases error
  | error _ =>
    cases error
    obtain ⟨culprit, verdict⟩ := ordinary_error_has_one_culprit amid_dividersCalled run rfl
    have broken : dividersCalled.IsActive ⟨2⟩ ∧ e'.HasFailed ⟨2⟩ :=
      ⟨Option.map_eq_some_iff.1 before, Option.map_eq_some_iff.1 after⟩
    cases (verdict.alone ⟨2⟩).1 broken
    exact ⟨e', run, verdict, Option.map_eq_some_iff.1 upstream⟩

end Engine

end SignalRules
