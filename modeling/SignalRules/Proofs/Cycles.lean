import SignalRules.Proofs.Traces

/-! # Rules on a cycle

A callback that is pending already is refused, and the error breaks rules. It breaks every rule
whose callback is pending then, and the rule that was checked first if one was: those on the cycle
and those that led to it alike, since a cycle counts as no failure and each rule up the chain takes
the error for its own.
-/

namespace SignalRules

/-- The callback was pending already. -/
def Event.loop? : Event → Option Callback
  | .refused callback (.circular _ _) => some callback
  | _ => none

/-- The callbacks that would have closed a cycle, each with the queue in which it was pending. -/
def loops (queue : List Callback) (events : List Event) : List (List Callback × Callback) :=
  occurrences Event.loop? queue events

theorem selective_loop? : Selective Event.loop? := by
  intro event aside
  cases event <;> first | rfl | cases aside

theorem Event.loop?_of_isSetup {event : Event} (setup : event.isSetup) : event.loop? = none := by
  cases event <;> first | rfl | cases setup

/-- The error for a callback that would close a cycle. -/
def circular (queue : List Callback) (callback : Callback) : ScriptError :=
  .dispatch (.circular callback.signal (queue.map Callback.signal ++ [callback.signal]))

/-- The rules that a task checks itself. -/
def Task.checked : Task → List ListenerId
  | .check id => [id]
  | _ => []

namespace Engine

variable {σ : Type}

/-! ## Broken rules -/

/-- The rule is broken. -/
def HasFailed (e : Engine σ) (id : ListenerId) : Prop :=
  ∃ rule, e.rule? id = some rule ∧ rule.state = .failed

/-- The rule is broken by this error. -/
def FailedBy (e : Engine σ) (id : ListenerId) (error : ScriptError) : Prop :=
  ∃ rule, e.rule? id = some rule ∧ rule.state = .failed ∧ rule.error = some error

theorem FailedBy.hasFailed {e : Engine σ} {id : ListenerId} {error : ScriptError}
    (failed : e.FailedBy id error) : e.HasFailed id := by
  obtain ⟨rule, found, state, _⟩ := failed
  exact ⟨rule, found, state⟩

theorem not_hasFailed_of_state {e : Engine σ} {id : ListenerId} {rule : Rule}
    (found : e.rule? id = some rule) (state : rule.state ≠ .failed) : ¬e.HasFailed id := by
  rintro ⟨_, same, failed⟩
  rw [found] at same
  cases same
  exact state failed

theorem hasFailed_of_same {e e' : Engine σ} {id : ListenerId} (same : e'.rule? id = e.rule? id) :
    e'.HasFailed id ↔ e.HasFailed id := by
  unfold HasFailed
  rw [same]

theorem FailedBy.of_same {e e' : Engine σ} {id : ListenerId} {error : ScriptError}
    (failed : e.FailedBy id error) (same : e'.rule? id = e.rule? id) : e'.FailedBy id error := by
  unfold FailedBy
  rwa [same]

theorem Aside.rule?_eq {e e' : Engine σ} (aside : Aside e e') : e'.rule? = e.rule? := by
  obtain ⟨_, _, _, rfl⟩ := aside
  rfl

/-- A change that neither breaks the rule nor mends it breaks and mends none. -/
theorem hasFailed_modifyRule {e : Engine σ} {changed : ListenerId} {f : Rule → Rule}
    (same : ∀ rule, e.rule? changed = some rule → ((f rule).state = .failed ↔ rule.state = .failed))
    (id : ListenerId) : (e.modifyRule changed f).HasFailed id ↔ e.HasFailed id := by
  by_cases ne : id = changed
  · subst ne
    cases found : e.rule? id with
    | none =>
      rw [modifyRule, found]
    | some rule =>
      have found' := rule?_modifyRule_self found f
      constructor
      · rintro ⟨_, known, failed⟩
        rw [found'] at known
        cases known
        exact ⟨rule, found, (same rule found).1 failed⟩
      · rintro ⟨_, known, failed⟩
        rw [found] at known
        cases known
        exact ⟨f rule, found', (same rule found).2 failed⟩
  · exact hasFailed_of_same (rule?_modifyRule_of_ne e ne f)

theorem hasFailed_hold (e : Engine σ) (changed : ListenerId) (held : Bool) (id : ListenerId) :
    (e.hold changed held).HasFailed id ↔ e.HasFailed id := by
  unfold hold
  refine hasFailed_modifyRule ?_ id
  exact fun _ _ => .rfl

/-- A rule that is judged is not broken. -/
theorem Judged.not_hasFailed {e e₁ : Engine σ} {id : ListenerId} {rule : Rule}
    {truth : Outcome Bool} (judged : Judged e id rule truth e₁) : ¬e.HasFailed id :=
  not_hasFailed_of_state judged.found (by rw [judged.active]; exact nofun)

theorem Judged.hasFailed {e e₁ e₂ : Engine σ} {checked : ListenerId} {rule : Rule}
    {truth : Outcome Bool} (judged : Judged e checked rule truth e₁) {held : Bool}
    (aside : Aside (e₁.hold checked held) e₂) (id : ListenerId) :
    e₂.HasFailed id ↔ e.HasFailed id := by
  rw [hasFailed_of_same (congrFun aside.rule?_eq id), hasFailed_hold,
    hasFailed_of_same (congrFun judged.aside.rule?_eq id)]

/-- An action that has not failed does not break its rule. -/
theorem hasFailed_conclude {e e' : Engine σ} {checked : ListenerId} {before : Nat}
    {outcome : Outcome Expr.Completion} (running : ¬e.HasFailed checked)
    (concluded : e.conclude checked before outcome = (.ok (), e')) (id : ListenerId) :
    e'.HasFailed id ↔ e.HasFailed id := by
  unfold conclude at concluded
  split at concluded
  · cases concluded
    rfl
  · cases concluded
    refine hasFailed_modifyRule (fun rule found => ⟨fun failed => ?_, fun failed => ?_⟩) id
    · cases failed
    · exact absurd ⟨rule, found, failed⟩ running
  · cases concluded
    exact hasFailed_hold e checked false id
  · split at concluded <;> cases concluded

/-! ## Blame -/

/-- In the course of something that checked these rules itself a callback would have closed a cycle,
the callbacks of `added` being taken up by then in addition to those that were pending before. -/
structure Looped (checked : List ListenerId) (e : Engine σ) (events : List Event)
    (result : Except ScriptError Unit) (e' : Engine σ) (added : List Callback)
    (callback : Callback) : Prop where
  shown : loops e.dispatcher.pending events = [(e.dispatcher.pending ++ added, callback)]
  pending : callback ∈ e.dispatcher.pending ++ added
  result : result = .error (circular (e.dispatcher.pending ++ added) callback)
  uncounted : e'.dispatcher.failures = e.dispatcher.failures ∧ e'.dispatcher.circular = true
  broken : ∀ id ∈ added.map Callback.listener ++ checked, ¬e.HasFailed id ∧
    e'.FailedBy id (circular (e.dispatcher.pending ++ added) callback)
  others : ∀ id ∉ added.map Callback.listener ++ checked, e'.HasFailed id ↔ e.HasFailed id

/-- What the entries of a task tell of cycles. -/
structure Blame (task : Task) (e : Engine σ) (events : List Event)
    (result : Except ScriptError Unit) (e' : Engine σ) : Prop where
  orderly : Orderly e events e'
  looped : loops e.dispatcher.pending events = [] ∨
    ∃ added callback, Looped task.checked e events result e' added callback
  unbroken : result = .ok () → ∀ id, e'.HasFailed id ↔ e.HasFailed id

namespace Blame

variable {task : Task} {e e₁ e₂ e₃ e₄ e' : Engine σ} {checked : ListenerId} {rule : Rule}
  {result : Except ScriptError Unit}

theorem of_hushed {events : List Event} (hushed : Hushed e events e')
    (unbroken : result = .ok () → ∀ id, e'.HasFailed id ↔ e.HasFailed id) :
    Blame task e events result e' where
  orderly := hushed.orderly
  looped := .inl <| occurrences_of_none
    (fun event member => selective_loop? (hushed.aside event member)) _
  unbroken := unbroken

theorem no_loop_of_ok {events : List Event} (blame : Blame task e events (.ok ()) e') :
    loops e.dispatcher.pending events = [] := by
  rcases blame.looped with none | ⟨_, _, looped⟩
  · exact none
  · cases looped.result

theorem tried {outcome : Outcome Expr.Completion} (judged : Judged e checked rule (.ready true) e₁)
    (attempt : Attempt (e₁.hold checked true) rule.action outcome e₂)
    (concluded : (e₂.note (.fired checked outcome)).conclude checked e.dispatcher.failures outcome =
      (result, e')) : ∃ events, Blame (.check checked) e events result e' := by
  obtain ⟨events, orderly, traced⟩ := judged.tried attempt.aside concluded
  refine ⟨events, orderly, .inl (traced selective_loop?), ?_⟩
  · rintro rfl id
    rw [hasFailed_conclude ?_ concluded]
    · exact judged.hasFailed attempt.aside id
    · exact fun failed => judged.not_hasFailed ((judged.hasFailed attempt.aside checked).1 failed)

end Blame

theorem FailedBy.breakDown {e : Engine σ} {id : ListenerId} {error : ScriptError}
    (failed : e.FailedBy id error) (changed : ListenerId) :
    (e.breakDown changed error).FailedBy id error := by
  by_cases ne : id = changed
  · subst ne
    obtain ⟨rule, found, _⟩ := failed
    exact ⟨_, rule?_modifyRule_self found _, rfl, rfl⟩
  · exact failed.of_same (rule?_modifyRule_of_ne e ne _)

/-- A rule takes the error of a cycle for its own. -/
theorem conclude_circular {e e' : Engine σ} {id : ListenerId} {before : Nat}
    {queue : List Callback} {callback : Callback} {result : Except ScriptError Unit}
    (uncounted : e.dispatcher.failures = before)
    (concluded : e.conclude id before (.failed (circular queue callback)) = (result, e')) :
    result = .error (circular queue callback) ∧ e' = e.breakDown id (circular queue callback) := by
  rw [conclude, if_neg (Decidable.not_not.2 uncounted)] at concluded
  cases concluded
  exact ⟨rfl, rfl⟩

theorem Looped.wrote {e e₁ e₂ e₃ e₄ e' : Engine σ} {checked : ListenerId} {rule : Rule}
    {name : String} {value : Value} {outcome : Outcome Expr.Completion}
    {written result : Except ScriptError Unit} {inside events : List Event}
    {added : List Callback} {callback : Callback}
    (looped : Looped [] e₂ inside written e₃ added callback)
    (judged : Judged e checked rule (.ready true) e₁)
    (writing : Writing (e₁.hold checked true) rule.action name value e₂)
    (inner : Cascade (.write name value) e₂ written e₃) (aside : Aside e₃ e₄)
    (outcome_eq : outcome = (Outcome.ofExcept written).map fun _ => rule.action.completion)
    (concluded : (e₄.note (.fired checked outcome)).conclude checked e.dispatcher.failures outcome =
      (result, e')) (same : e₂.dispatcher = e.dispatcher)
    (shown : loops e.dispatcher.pending events = loops e₂.dispatcher.pending inside) :
    Looped [checked] e events result e' added callback := by
  obtain ⟨shownInside, pending, failed, ⟨uncounted, flagged⟩, broken, others⟩ := looped
  rw [same] at shown shownInside pending failed uncounted broken
  subst failed
  have outcome_eq : outcome = .failed (circular (e.dispatcher.pending ++ added) callback) :=
    outcome_eq
  subst outcome_eq
  have still : e₄.dispatcher = e₃.dispatcher := aside.dispatcher
  -- No failure has been counted since the action began.
  obtain ⟨rfl, rfl⟩ := conclude_circular (by rw [← uncounted, ← still]; rfl) concluded
  have held : e₂.rule? checked = some { rule with held := true } := by
    rw [writing.aside.rule?_eq]
    exact rule?_modifyRule_self judged.still_found _
  obtain ⟨rule', found', _⟩ := inner.framed.rules held
  have sameRules : ∀ id, (e₄.note (.fired checked
      (.failed (circular (e.dispatcher.pending ++ added) callback)))).rule? id = e₃.rule? id :=
    congrFun aside.rule?_eq
  refine ⟨shown.trans shownInside, pending, rfl, ?_, fun id member => ?_, fun id absent => ?_⟩
  · rw [breakDown, dispatcher_modifyRule]
    exact ⟨(congrArg Dispatcher.failures still).trans uncounted,
      (congrArg Dispatcher.circular still).trans flagged⟩
  · rcases List.mem_append.1 member with inChain | isChecked
    · obtain ⟨sound, byError⟩ := broken id (List.mem_append_left _ inChain)
      exact ⟨fun failed => sound ((judged.hasFailed writing.aside id).2 failed),
        (byError.of_same (sameRules id)).breakDown checked⟩
    · obtain rfl := List.mem_singleton.1 isChecked
      exact ⟨judged.not_hasFailed, _, rule?_modifyRule_self ((sameRules id).trans found') _, rfl,
        rfl⟩
  · simp only [List.mem_append, List.mem_singleton, not_or] at absent
    rw [breakDown, hasFailed_of_same (rule?_modifyRule_of_ne _ absent.2 _),
      hasFailed_of_same (sameRules id), others id (by simpa using absent.1)]
    exact judged.hasFailed writing.aside id

theorem Blame.wrote {e e₁ e₂ e₃ e₄ e' : Engine σ} {checked : ListenerId} {rule : Rule}
    {name : String} {value : Value} {outcome : Outcome Expr.Completion}
    {written result : Except ScriptError Unit} {inside : List Event}
    (judged : Judged e checked rule (.ready true) e₁)
    (writing : Writing (e₁.hold checked true) rule.action name value e₂)
    (inner : Cascade (.write name value) e₂ written e₃)
    (blame : Blame (.write name value) e₂ inside written e₃) (aside : Aside e₃ e₄)
    (outcome_eq : outcome = (Outcome.ofExcept written).map fun _ => rule.action.completion)
    (concluded : (e₄.note (.fired checked outcome)).conclude checked e.dispatcher.failures outcome =
      (result, e')) : ∃ events, Blame (.check checked) e events result e' := by
  have same := judged.dispatcher writing.aside
  obtain ⟨events, orderly, traced⟩ := judged.wrote writing.aside blame.orderly aside concluded
  have shown : loops e.dispatcher.pending events = loops e₂.dispatcher.pending inside := by
    rw [same]
    exact (traced selective_loop?).trans (List.append_nil _)
  refine ⟨events, orderly, ?_, ?_⟩
  · rcases blame.looped with none | ⟨added, callback, looped⟩
    · exact .inl (shown.trans none)
    · exact .inr ⟨added, callback, looped.wrote judged writing inner aside outcome_eq concluded
        same shown⟩
  · rintro rfl id
    have unbroken : ∀ id, e₄.HasFailed id ↔ e.HasFailed id := by
      intro id
      rw [hasFailed_of_same (congrFun aside.rule?_eq id),
        blame.unbroken (written_of_concluded (outcome_eq ▸ concluded)) id]
      exact judged.hasFailed writing.aside id
    rw [hasFailed_conclude ?_ concluded]
    · exact unbroken id
    · exact fun failed => judged.not_hasFailed ((unbroken checked).1 failed)

/-- A cycle in the course of a task is one in the course of what the task is a part of. -/
theorem Looped.within {checked : List ListenerId} {e e₁ e' : Engine σ} {events events' : List Event}
    {result : Except ScriptError Unit} {added : List Callback} {callback : Callback}
    (looped : Looped checked e₁ events result e' added callback)
    (pending : e₁.dispatcher.pending = e.dispatcher.pending)
    (failures : e₁.dispatcher.failures = e.dispatcher.failures)
    (shown : loops e.dispatcher.pending events' = loops e.dispatcher.pending events)
    (unbroken : ∀ id, e₁.HasFailed id ↔ e.HasFailed id) :
    Looped checked e events' result e' added callback := by
  obtain ⟨shownInside, member, failed, uncounted, broken, others⟩ := looped
  rw [pending] at shownInside member failed broken
  rw [failures] at uncounted
  refine ⟨shown.trans shownInside, member, failed, uncounted, fun id inChain => ?_,
    fun id absent => ?_⟩
  · rw [← unbroken]
    exact broken id inChain
  · rw [← unbroken]
    exact others id absent

theorem Looped.taken {e e₁ : Engine σ} {taken : Callback} {result : Except ScriptError Unit}
    {inside : List Event} {added : List Callback} {callback : Callback}
    (verdict : (e.dispatcher.enter taken).2 = .ok ())
    (looped : Looped [taken.listener] (e.takeUp taken) inside result e₁ added callback)
    {events : List Event}
    (shown : loops e.dispatcher.pending events = loops (e.takeUp taken).dispatcher.pending inside) :
    Looped [] e events result (e₁.leave taken result) (taken :: added) callback := by
  have pushed : (e.takeUp taken).dispatcher.pending = e.dispatcher.pending ++ [taken] :=
    Dispatcher.pending_enter_of_ok verdict
  obtain ⟨shownInside, member, failed, ⟨uncounted, flagged⟩, broken, others⟩ := looped
  rw [pushed] at shown
  rw [pushed, List.append_assoc, List.singleton_append] at shownInside member failed broken
  subst failed
  refine ⟨shown.trans shownInside, member, rfl, ⟨?_, flagged⟩, fun id inChain => ?_,
    fun id absent => ?_⟩
  · have kept : ∀ error, (e₁.leave taken (.error error)).dispatcher.failures =
        e₁.dispatcher.failures := fun _ => if_pos flagged
    rw [kept, uncounted]
    exact Dispatcher.failures_enter e.dispatcher taken
  · exact broken id (by simpa [or_comm] using inChain)
  · exact others id (by simpa [and_comm] using absent)

/-- A refusal closes a cycle, or there was no room. -/
theorem Blame.refused {e : Engine σ} {callback : Callback} {error : DispatchError}
    (verdict : (e.dispatcher.enter callback).2 = .error error) :
    Blame (.schedule callback) e [.refused callback error] (.error (.dispatch error))
      (e.refuse callback error) := by
  refine ⟨.of_refused verdict, ?_, nofun⟩
  by_cases member : callback ∈ e.dispatcher.pending
  · right
    have entered : e.dispatcher.enter callback = ({ e.dispatcher.refresh with circular := true },
        .error (.circular callback.signal
          (e.dispatcher.pending.map Callback.signal ++ [callback.signal]))) := if_pos member
    rw [entered] at verdict
    cases verdict
    refine ⟨[], callback, ?_, by simpa using member, by simp [circular], ?_, nofun,
      fun id _ => .rfl⟩
    · simp [loops, occurrences, Event.loop?, Event.queue?]
    · simp [refuse, note, entered]
  · left
    rw [Dispatcher.enter, if_neg member] at verdict
    split at verdict
    · cases verdict
      rfl
    · cases verdict

/-- In the course of every task a cycle breaks the whole chain. -/
theorem Cascade.blame {task : Task} {e e' : Engine σ} {result : Except ScriptError Unit}
    (cascade : Cascade task e result e') : ∃ events, Blame task e events result e' := by
  induction cascade with
  | @asleep e => exact ⟨[], .of_hushed ⟨rfl, by simp, by simp⟩ fun _ _ => .rfl⟩
  | unclear judged =>
    obtain ⟨events, hushed⟩ := Hushed.of_aside judged.aside
    exact ⟨events, .of_hushed hushed fun _ id =>
      hasFailed_of_same (congrFun judged.aside.rule?_eq id)⟩
  | broken judged =>
    obtain ⟨events, hushed⟩ := Hushed.of_aside judged.aside
    exact ⟨events, .of_hushed (hushed.modify _ _) nofun⟩
  | steady judged =>
    obtain ⟨events, hushed⟩ := Hushed.of_aside judged.aside
    refine ⟨events, .of_hushed (hushed.modify _ _) fun _ id => ?_⟩
    exact judged.hasFailed (.refl _) id
  | tried judged _ attempt concluded => exact Blame.tried judged attempt concluded
  | wrote judged _ writing inner aside outcome_eq concluded ih =>
    obtain ⟨_, inside⟩ := ih
    exact inside.wrote judged writing inner aside outcome_eq concluded
  | unchanged => exact ⟨[], .of_hushed ⟨rfl, by simp, by simp⟩ fun _ _ => .rfl⟩
  | changed _ _ ih =>
    obtain ⟨events, orderly, looped, unbroken⟩ := ih
    refine ⟨events, { orderly with }, ?_, unbroken⟩
    refine looped.imp (·) fun ⟨added, callback, looped⟩ => ⟨added, callback, ?_⟩
    exact looped.within rfl rfl rfl fun _ => .rfl
  | nil => exact ⟨[], .of_hushed ⟨rfl, by simp, by simp⟩ fun _ _ => .rfl⟩
  | @cons e e₁ _ _ _ _ first _ head tail =>
    obtain ⟨before, head⟩ := head
    obtain ⟨after, orderly, looped, unbroken⟩ := tail
    obtain ⟨pending, failures⟩ := first.smooth rfl
    have shown : loops e.dispatcher.pending (before ++ after) =
        loops e.dispatcher.pending after := by
      have none := head.no_loop_of_ok
      unfold loops at none ⊢
      rw [occurrences_append, head.orderly.shown, none, pending]
      rfl
    refine ⟨before ++ after, head.orderly.trans orderly, ?_, fun ok id => ?_⟩
    · rcases looped with none | ⟨added, callback, looped⟩
      · exact .inl (shown.trans (pending ▸ none))
      · exact .inr ⟨added, callback, looped.within pending failures shown (head.unbroken rfl)⟩
    · exact (unbroken ok id).trans (head.unbroken rfl id)
  | stop _ ih =>
    obtain ⟨events, orderly, looped, _⟩ := ih
    refine ⟨events, orderly, looped.imp (·) fun ⟨added, callback, looped⟩ => ?_, nofun⟩
    exact ⟨added, callback, looped.within rfl rfl rfl fun _ => .rfl⟩
  | refused verdict => exact ⟨_, .refused verdict⟩
  | @taken e e₁ callback result verdict _ ih =>
    obtain ⟨inside, orderly, looped, unbroken⟩ := ih
    have pushed : (e.takeUp callback).dispatcher.pending = e.dispatcher.pending ++ [callback] :=
      Dispatcher.pending_enter_of_ok verdict
    have shown : loops e.dispatcher.pending
        (.entered callback (e.dispatcher.pending ++ [callback]) :: inside ++
          [.left callback result (e₁.leave callback result).dispatcher.pending]) =
        loops (e.takeUp callback).dispatcher.pending inside := by
      rw [loops, occurrences_append, pushed]
      exact List.append_nil _
    refine ⟨_, .of_taken verdict orderly, ?_, unbroken⟩
    rcases looped with none | ⟨added, refused, looped⟩
    · exact .inl (shown.trans none)
    · exact .inr ⟨callback :: added, refused, looped.taken verdict shown⟩

/-! ## Commands -/

theorem hasFailed_start {e : Engine σ} {id : ListenerId} {rule : Rule}
    (found : e.rule? id = some rule) (inactive : rule.state = .inactive) (other : ListenerId) :
    (e.start id).HasFailed other ↔ e.HasFailed other := by
  refine hasFailed_modifyRule (fun rule' found' => ⟨fun failed => ?_, fun failed => ?_⟩) other
  · cases failed
  · rw [found] at found'
    cases found'
    rw [inactive] at failed
    cases failed

/-- A cycle in the course of a step breaks the whole chain and the rules that the step checks. -/
theorem Step.looped {checked : List ListenerId} {e e' : Engine σ}
    {result : Except ScriptError Unit} (step : Step checked e result e') :
    ∃ events, Orderly e events e' ∧ (loops e.dispatcher.pending events = [] ∨
      ∃ added callback, Looped checked e events result e' added callback) := by
  have of_setup : ∀ {events : List Event} {queue}, (∀ event ∈ events, event.isSetup) →
      loops queue events = [] := fun setup => occurrences_of_none
    (fun event member => Event.loop?_of_isSetup (setup event member)) _
  cases step with
  | idle => exact ⟨[], .of_same rfl (by simp) (by simp), .inl rfl⟩
  | write cascade | check cascade =>
    obtain ⟨events, orderly, looped, _⟩ := cascade.blame
    exact ⟨events, orderly, looped⟩
  | advance cascade =>
    obtain ⟨events, orderly, looped, _⟩ := cascade.blame
    refine ⟨events, { orderly with }, looped.imp (·) fun ⟨added, callback, looped⟩ => ?_⟩
    exact ⟨added, callback, looped.within rfl rfl rfl fun _ => .rfl⟩
  | activate found inactive rewired _ cascade =>
    obtain ⟨before, setup, orderly⟩ := rewired.orderly
    obtain ⟨after, inside, looped, _⟩ := cascade.blame
    have shown : loops e.dispatcher.pending (before ++ after) =
        loops e.dispatcher.pending after := by
      rw [loops, occurrences_append, ← loops, of_setup setup, orderly.shown, rewired.dispatcher]
      rfl
    refine ⟨before ++ after, (orderly.modify _ _).trans inside, ?_⟩
    rw [dispatcher_start, rewired.dispatcher] at looped
    refine looped.imp shown.trans fun ⟨added, callback, looped⟩ => ⟨added, callback, ?_⟩
    refine looped.within ?_ ?_ shown fun id => ?_
    · rw [dispatcher_start, rewired.dispatcher]
    · rw [dispatcher_start, rewired.dispatcher]
    rw [hasFailed_start (rewired.rule?_eq ▸ found) inactive]
    exact hasFailed_of_same (congrFun rewired.rule?_eq id)
  | giveUp _ _ rewired =>
    obtain ⟨events, setup, orderly⟩ := rewired.orderly
    exact ⟨events, orderly, .inl (of_setup setup)⟩
  | deactivate _ rewired =>
    obtain ⟨events, setup, orderly⟩ := rewired.orderly
    exact ⟨events, orderly.modify _ _, .inl (of_setup setup)⟩

end Engine

/-- The rules on the cycle that a callback would have closed. -/
def onCycle (queue : List Callback) (callback : Callback) : List ListenerId :=
  (queue.drop (queue.idxOf callback)).map Callback.listener

/-- The rules that led to the cycle. -/
def beforeCycle (queue : List Callback) (callback : Callback) : List ListenerId :=
  (queue.take (queue.idxOf callback)).map Callback.listener

theorem mem_beforeCycle_or_onCycle (queue : List Callback) (callback : Callback)
    {id : ListenerId} : id ∈ queue.map Callback.listener ↔
      id ∈ beforeCycle queue callback ∨ id ∈ onCycle queue callback := by
  rw [← List.mem_append, beforeCycle, onCycle, ← List.map_append, List.take_append_drop]

namespace Engine

variable {σ : Type}

/-- The rule was sound and is broken. -/
def BreaksDown (e e' : Engine σ) (id : ListenerId) : Prop :=
  ¬e.HasFailed id ∧ e'.HasFailed id

/-- What comes of a callback that would have closed a cycle, in a command that itself checks these
rules. -/
structure Breakage (checked : List ListenerId) (e : Engine σ) (result : Except ScriptError Unit)
    (e' : Engine σ) (queue : List Callback) (callback : Callback) : Prop where
  pending : callback ∈ queue
  result : result = .error (circular queue callback)
  broken : ∀ id, BreaksDown e e' id ↔ id ∈ queue.map Callback.listener ∨ id ∈ checked
  error : ∀ id, BreaksDown e e' id → e'.FailedBy id (circular queue callback)
  /-- No more breaks than the cycle if the rules that led to it are on it as well. -/
  onCycle : (∀ id, BreaksDown e e' id ↔ id ∈ onCycle queue callback) ↔
    ∀ id, id ∈ beforeCycle queue callback ∨ id ∈ checked → id ∈ onCycle queue callback

theorem Looped.breakage {checked : List ListenerId} {e e' : Engine σ} {events : List Event}
    {result : Except ScriptError Unit} {queue : List Callback} {callback : Callback}
    (idle : e.dispatcher.pending = []) (looped : Looped checked e events result e' queue callback) :
    Breakage checked e result e' queue callback := by
  obtain ⟨_, pending, failed, _, broken, others⟩ := looped
  rw [idle, List.nil_append] at pending failed broken
  have whole : ∀ id, BreaksDown e e' id ↔ id ∈ queue.map Callback.listener ∨ id ∈ checked := by
    intro id
    rw [← List.mem_append]
    constructor
    · rintro ⟨sound, failed⟩
      by_cases member : id ∈ queue.map Callback.listener ++ checked
      · exact member
      · exact absurd ((others id member).1 failed) sound
    · intro member
      exact ⟨(broken id member).1, (broken id member).2.hasFailed⟩
  refine ⟨pending, failed, whole, fun id breaks => ?_, fun claimed id led => ?_, fun led id => ?_⟩
  · exact (broken id (List.mem_append.2 ((whole id).1 breaks))).2
  · refine (claimed id).1 ((whole id).2 ?_)
    rw [mem_beforeCycle_or_onCycle queue callback]
    exact led.imp_left .inl
  · rw [whole, mem_beforeCycle_or_onCycle queue callback]
    constructor
    · rintro ((before | member) | isChecked)
      · exact led id (.inl before)
      · exact member
      · exact led id (.inr isChecked)
    · exact fun member => .inl (.inr member)

theorem tick_cons {depth : Nat} {book : Book} {id : ListenerId} {ids : List ListenerId}
    {e e' : Engine σ} {count : Nat}
    (run : (Command.tick { book with rules := id :: ids }).run depth e =
      some (.failures count, e')) :
    ∃ result e₁ rest, (Command.check id).run (depth + 1) e = some (.result result, e₁) ∧
      (Command.tick { book with rules := ids }).run depth e₁ = some (.failures rest, e') ∧
      count = if result.isOk then rest else rest + 1 := by
  obtain ⟨_, _, ran, finish⟩ := Run.bind_eq_some_iff.1 run
  cases finish
  change Book.tick.go (handle depth) (id :: ids) e = _ at ran
  rw [Book.tick.go] at ran
  obtain ⟨result, e₁, first, rest⟩ := Run.bind_eq_some_iff.1 ran
  have checked : (Command.check id).run (depth + 1) e = some (.result result, e₁) :=
    Run.bind_eq_some_iff.2 ⟨result, e₁, first, rfl⟩
  cases result with
  | ok _ => exact ⟨_, e₁, count, checked, Run.bind_eq_some_iff.2 ⟨count, e', rest, rfl⟩, rfl⟩
  | error _ =>
    obtain ⟨more, e₂, ran, finish⟩ := Run.bind_eq_some_iff.1 rest
    cases finish
    exact ⟨_, e₁, more, checked, Run.bind_eq_some_iff.2 ⟨more, _, ran, rfl⟩, rfl⟩

/-- A cycle that comes up in a command breaks all rules whose callbacks are pending then, and the
rule that the command checks itself, whether or not they are on the cycle. A tick is a sequence of
such commands. -/
theorem cycle_breaks_whole_chain {accepted : Reply → Prop} {e : Engine σ}
    (reached : Reached accepted e) :
    (∀ {depth : Nat} {command : Command} {result : Except ScriptError Unit} {e' : Engine σ},
      command.run depth e = some (.result result, e') →
        ∃ events, e'.journal = e.journal ++ events ∧
          ∀ queue callback, (queue, callback) ∈ loops [] events →
            Breakage command.checked e result e' queue callback) ∧
    ∀ {depth : Nat} {book : Book} {id : ListenerId} {ids : List ListenerId} {e' : Engine σ}
      {count : Nat}, (Command.tick { book with rules := id :: ids }).run depth e =
        some (.failures count, e') →
      ∃ result e₁ rest, (Command.check id).run (depth + 1) e = some (.result result, e₁) ∧
        (Command.tick { book with rules := ids }).run depth e₁ = some (.failures rest, e') ∧
        count = if result.isOk then rest else rest + 1 := by
  refine ⟨fun run => ?_, tick_cons⟩
  obtain ⟨events, orderly, looped⟩ := (command_step reached.among run).looped
  refine ⟨events, orderly.journal, fun queue callback member => ?_⟩
  rw [reached.atRest.idle] at looped
  rcases looped with none | ⟨added, refused, looped⟩
  · rw [none] at member
    cases member
  · have shown := looped.shown
    rw [reached.atRest.idle, List.nil_append] at shown
    rw [shown] at member
    cases List.mem_singleton.1 member
    exact looped.breakage reached.atRest.idle

/-- The last two of these rules set each other off again and again, and the first starts them. -/
def loopers : Engine Unit :=
  create {} ()
  |>.withRule ⟨1⟩
    { condition := "(sig Signals.Go)", action := "(act Signals.Set 'A' (sig Signals.Go))" }
  |>.withRule ⟨1⟩
    { condition := "(sig Signals.A)", action := "(act Signals.Set 'B' (sig Signals.A))" }
  |>.withRule ⟨1⟩
    { condition := "(sig Signals.B)", action := "(act Signals.Set 'A' (add (sig Signals.B) 100))" }
  |>.afterAll (fun _ => True) 9 [.activate ⟨1⟩, .activate ⟨2⟩, .activate ⟨3⟩]

theorem reached_loopers : Reached (fun _ => True) loopers := by
  unfold loopers
  exact ((((Reached.create {} ()).withRule _ _).withRule _ _).withRule _ _).afterAll _ _

/-- The first rule breaks although it is not on the cycle. -/
theorem loopers_run : ∃ result e' events queue callback,
    (Command.set "Go" (.number (.ofInt 1))).run 9 loopers = some (.result result, e') ∧
      e'.journal = loopers.journal ++ events ∧ (queue, callback) ∈ loops [] events ∧
      BreaksDown loopers e' ⟨1⟩ ∧ ⟨1⟩ ∉ onCycle queue callback := by
  have known : ((Command.set "Go" (.number (.ofInt 1))).run 9 loopers).map (fun answer =>
      (loops [] (answer.2.journal.drop loopers.journal.length),
        (loopers.rule? ⟨1⟩).map Rule.state, (answer.2.rule? ⟨1⟩).map Rule.state)) =
      some ([([⟨"Signals.Go", ⟨1⟩⟩, ⟨"Signals.A", ⟨2⟩⟩, ⟨"Signals.B", ⟨3⟩⟩], ⟨"Signals.A", ⟨2⟩⟩)],
        some .active, some .failed) := by decide +kernel
  obtain ⟨⟨reply, e'⟩, run, same⟩ := Option.map_eq_some_iff.1 known
  simp only [Prod.mk.injEq] at same
  obtain ⟨shown, active, failed⟩ := same
  obtain ⟨result, _, ran, finish⟩ := Run.bind_eq_some_iff.1 run
  cases finish
  obtain ⟨events, orderly⟩ := (command_step reached_loopers.among run).orderly
  obtain ⟨old, found, active⟩ := Option.map_eq_some_iff.1 active
  obtain ⟨rule, found', failed⟩ := Option.map_eq_some_iff.1 failed
  rw [orderly.journal, List.drop_left] at shown
  refine ⟨result, e', events, _, _, run, orderly.journal, shown ▸ List.mem_singleton_self _,
    ⟨?_, rule, found', failed⟩, ?_⟩
  · exact not_hasFailed_of_state found (by rw [active]; exact nofun)
  · decide

/-- More than a cycle can break. -/
theorem not_only_cycle_breaks :
    ¬∀ (e e' : Engine Unit) (depth : Nat) (command : Command) (result : Except ScriptError Unit)
      (events : List Event) (queue : List Callback) (callback : Callback),
      Reached (fun _ => True) e → command.run depth e = some (.result result, e') →
      e'.journal = e.journal ++ events → (queue, callback) ∈ loops [] events →
        ∀ id, BreaksDown e e' id ↔ id ∈ onCycle queue callback := by
  intro claimed
  obtain ⟨result, e', events, queue, callback, run, journal, member, breaks, apart⟩ := loopers_run
  have only := claimed _ _ _ _ _ _ _ _ reached_loopers run journal member
  exact apart ((only ⟨1⟩).1 breaks)

theorem loopers_break : ∃ result e' queue callback,
    (Command.set "Go" (.number (.ofInt 1))).run 9 loopers = some (.result result, e') ∧
      Breakage [] loopers result e' queue callback ∧ BreaksDown loopers e' ⟨1⟩ ∧
      ⟨1⟩ ∉ onCycle queue callback := by
  obtain ⟨result, e', events, queue, callback, run, journal, member, breaks, apart⟩ := loopers_run
  obtain ⟨_, journal', whole⟩ := (cycle_breaks_whole_chain reached_loopers).1 run
  obtain rfl := List.append_cancel_left (journal.symm.trans journal')
  exact ⟨result, e', queue, callback, run, whole queue callback member, breaks, apart⟩

end Engine

end SignalRules
