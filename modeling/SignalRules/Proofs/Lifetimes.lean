import SignalRules.Proofs.Culprits
import SignalRules.Proofs.ExecuteOnce
import SignalRules.Proofs.Freshness
import SignalRules.Proofs.Moments

/-! # How rules end

A rule that has failed or completed is over, and no host application can revive it. Within a chain
there is one way out: a rule may complete while it is called back inside its own action, and when a
cycle is found later on in that action, the error breaks the rule although it has completed.
-/

namespace SignalRules

namespace Engine

variable {σ : Type}

def HasCompleted (e : Engine σ) (id : ListenerId) : Prop :=
  ∃ rule, e.rule? id = some rule ∧ rule.state = .completed

theorem hasCompleted_of_same {e e' : Engine σ} {id : ListenerId} (same : e'.rule? id = e.rule? id) :
    e'.HasCompleted id ↔ e.HasCompleted id := by
  unfold HasCompleted
  rw [same]

theorem not_hasCompleted_of_active {e : Engine σ} {id : ListenerId} {rule : Rule}
    (found : e.rule? id = some rule) (active : rule.state = .active) : ¬e.HasCompleted id := by
  rintro ⟨_, same, completed⟩
  rw [found] at same
  cases same
  rw [active] at completed
  cases completed

theorem HasFailed.not_hasCompleted {e : Engine σ} {id : ListenerId} (failed : e.HasFailed id) :
    ¬e.HasCompleted id := by
  obtain ⟨_, found, state⟩ := failed
  rintro ⟨_, same, completed⟩
  rw [found] at same
  cases same
  rw [state] at completed
  cases completed

/-! ## Spent rules -/

/-- Rules that have failed or completed are the same, with all that belongs to them. -/
def Preserves (e e' : Engine σ) : Prop :=
  ∀ id rule, e.rule? id = some rule → rule.IsSpent → e'.rule? id = some rule

namespace Preserves

theorem refl (e : Engine σ) : Preserves e e :=
  fun _ _ found _ => found

theorem trans {a b c : Engine σ} (ab : Preserves a b) (bc : Preserves b c) : Preserves a c :=
  fun id rule found spent => bc id rule (ab id rule found spent) spent

theorem of_same {e e' : Engine σ} (same : e'.rule? = e.rule?) : Preserves e e' := by
  intro id rule found _
  rw [same]
  exact found

theorem of_framed {e e' : Engine σ} (framed : Framed e e') : Preserves e e' := by
  intro id rule found spent
  obtain ⟨rule', found', follows⟩ := framed.rules found
  rw [found', follows.resting spent.not_active]

/-- No spent rule is changed. -/
theorem modifyRule {e : Engine σ} {id : ListenerId} {f : Rule → Rule}
    (stays : ∀ rule, e.rule? id = some rule → rule.IsSpent → f rule = rule) :
    Preserves e (e.modifyRule id f) := by
  intro other rule found spent
  by_cases same : other = id
  · subst same
    rw [rule?_modifyRule_self found, stays rule found spent]
  · rw [rule?_modifyRule_of_ne e same]
    exact found

theorem hasFailed {e e' : Engine σ} (preserves : Preserves e e') {id : ListenerId}
    (failed : e.HasFailed id) : e'.HasFailed id := by
  obtain ⟨rule, found, state⟩ := failed
  exact ⟨rule, preserves id rule found (.inl state), state⟩

theorem failedBy {e e' : Engine σ} (preserves : Preserves e e') {id : ListenerId}
    {error : ScriptError} (failed : e.FailedBy id error) : e'.FailedBy id error := by
  obtain ⟨rule, found, state, same⟩ := failed
  exact ⟨rule, preserves id rule found (.inl state), state, same⟩

theorem hasCompleted {e e' : Engine σ} (preserves : Preserves e e') {id : ListenerId}
    (completed : e.HasCompleted id) : e'.HasCompleted id := by
  obtain ⟨rule, found, state⟩ := completed
  exact ⟨rule, preserves id rule found (.inr state), state⟩

end Preserves

/-- A rule that is spent when a passage begins is the same at every moment of it. -/
theorem Passage.preserves {e e' : Engine σ} {moments : List (Engine σ)}
    (passage : Passage e moments e') : (∀ m ∈ moments, Preserves e m) ∧ Preserves e e' := by
  have both : ∀ {a b : Engine σ}, Preserves a b →
      (∀ m ∈ [a, b], Preserves a m) ∧ Preserves a b := by
    intro a b preserves
    simp [preserves, Preserves.refl]
  induction passage with
  | stay e => simp [Preserves.refl]
  | task _ course =>
    exact ⟨fun m member => .of_framed (course.framed m member), .of_framed course.cascade.framed⟩
  | listen e rule => exact both fun _ _ found _ => rule?_addListener_of_some found _
  | rewire rewired => exact both (.of_same rewired.rule?_eq)
  | start found inactive =>
    refine both (.modifyRule fun rule known spent => ?_)
    rw [found] at known
    cases known
    rcases spent with failed | completed
    · rw [inactive] at failed
      cases failed
    · rw [inactive] at completed
      cases completed
  | stop e id =>
    exact both (.modifyRule fun rule _ spent => if_neg spent.not_active)
  | advance e => exact both (.of_same rfl)
  | trans _ _ first rest =>
    refine ⟨fun m member => ?_, first.2.trans rest.2⟩
    rcases List.mem_append.1 member with before | after
    · exact first.1 m before
    · exact first.2.trans (rest.1 m after)

/-! ## Moments of a chain -/

/-- What has failed is still broken. What has completed is still so, or a cycle has broken it. -/
structure Ages (m m' : Engine σ) : Prop where
  failed : ∀ {id}, m.HasFailed id → m'.HasFailed id
  completed : ∀ {id}, m.HasCompleted id →
    m'.HasCompleted id ∨ ∃ error : ScriptError, error.isCircular = true ∧ m'.FailedBy id error

namespace Ages

theorem of_preserves {m m' : Engine σ} (preserves : Preserves m m') : Ages m m' :=
  ⟨preserves.hasFailed, fun completed => .inl (preserves.hasCompleted completed)⟩

theorem preserved {a b c : Engine σ} (ages : Ages a b) (preserves : Preserves b c) : Ages a c where
  failed failed := preserves.hasFailed (ages.failed failed)
  completed completed := by
    rcases ages.completed completed with still | ⟨error, circular, failed⟩
    · exact .inl (preserves.hasCompleted still)
    · exact .inr ⟨error, circular, preserves.failedBy failed⟩

theorem modifyRule {m b : Engine σ} (ages : Ages m b) {id : ListenerId} {f : Rule → Rule}
    (failed : m.HasFailed id → (b.modifyRule id f).HasFailed id)
    (completed : m.HasCompleted id → (b.modifyRule id f).HasCompleted id ∨
      ∃ error : ScriptError, error.isCircular = true ∧ (b.modifyRule id f).FailedBy id error) :
    Ages m (b.modifyRule id f) where
  failed := by
    intro other was
    by_cases same : other = id
    · exact same ▸ failed (same ▸ was)
    · exact (hasFailed_of_same (rule?_modifyRule_of_ne b same f)).2 (ages.failed was)
  completed := by
    intro other was
    by_cases same : other = id
    · exact same ▸ completed (same ▸ was)
    · have unchanged := rule?_modifyRule_of_ne b same f
      rcases ages.completed was with still | ⟨error, circular, failed⟩
      · exact .inl ((hasCompleted_of_same unchanged).2 still)
      · exact .inr ⟨error, circular, failed.of_same unchanged⟩

theorem exists_rule {m b : Engine σ} (ages : Ages m b) {id : ListenerId}
    (ended : m.HasFailed id ∨ m.HasCompleted id) : ∃ rule, b.rule? id = some rule := by
  rcases ended with failed | completed
  · obtain ⟨rule, found, _⟩ := ages.failed failed
    exact ⟨rule, found⟩
  · rcases ages.completed completed with ⟨rule, found, _⟩ | ⟨_, _, rule, found, _⟩
    · exact ⟨rule, found⟩
    · exact ⟨rule, found⟩

/-- The end of its action may complete a rule that is not broken, and break one that has completed
if the error is of a cycle. -/
theorem conclude {m b e' : Engine σ} (ages : Ages m b) {id : ListenerId} {before : Nat}
    {outcome : Outcome Expr.Completion} {result : Except ScriptError Unit}
    (concluded : b.conclude id before outcome = (result, e'))
    (unbroken : outcome = .ready .doneOnce → ¬b.HasFailed id)
    (ordinary : ∀ error, outcome = .failed error → b.dispatcher.failures = before →
      error.isCircular = false → ¬m.HasCompleted id) : Ages m e' := by
  cases outcome with
  | ready c =>
    cases c with
    | done =>
      cases concluded
      exact ages
    | doneOnce =>
      cases concluded
      refine ages.modifyRule (fun was => absurd (ages.failed was) (unbroken rfl)) fun was => ?_
      obtain ⟨rule, found⟩ := ages.exists_rule (.inr was)
      exact .inl ⟨_, rule?_modifyRule_self found _, rfl⟩
  | interrupted reason =>
    cases concluded
    refine ages.modifyRule (fun was => (hasFailed_hold b id false id).2 (ages.failed was)) ?_
    intro was
    rcases ages.completed was with ⟨rule, found, state⟩ | ⟨error, circular, rule, found, state⟩
    · exact .inl ⟨_, rule?_modifyRule_self found _, state⟩
    · exact .inr ⟨error, circular, _, rule?_modifyRule_self found _, state⟩
  | failed error =>
    rcases conclude_failed concluded with ⟨_, _, rfl⟩ | ⟨uncounted, _, rfl⟩
    · exact ages
    · refine ages.modifyRule (fun was => ?_) fun was => ?_
      · obtain ⟨rule, found⟩ := ages.exists_rule (.inl was)
        exact ⟨_, rule?_modifyRule_self found _, rfl⟩
      · obtain ⟨rule, found⟩ := ages.exists_rule (.inr was)
        cases circular : error.isCircular with
        | false => exact absurd was (ordinary error rfl uncounted circular)
        | true =>
          right
          exact ⟨error.intoRuntime, error.isCircular_intoRuntime.trans circular, _,
            rule?_modifyRule_self found _, rfl, rfl⟩

end Ages

/-- From each moment to every later one, and to the last. -/
structure Aged (moments : List (Engine σ)) (last : Engine σ) : Prop where
  pairwise : moments.Pairwise Ages
  last : ∀ m ∈ moments, Ages m last

namespace Aged

variable {before after : List (Engine σ)} {b c : Engine σ}

theorem single (e : Engine σ) : Aged [e] e :=
  ⟨List.pairwise_singleton _ _, by simp [Ages.of_preserves, Preserves.refl]⟩

theorem append (first : Aged before b) (rest : Aged after c)
    (moments : ∀ m ∈ after, Preserves b m) (preserves : Preserves b c) :
    Aged (before ++ after) c where
  pairwise := List.pairwise_append.2 ⟨first.pairwise, rest.pairwise,
    fun m member m' later => (first.last m member).preserved (moments m' later)⟩
  last m member := by
    rcases List.mem_append.1 member with early | late
    · exact (first.last m early).preserved preserves
    · exact rest.last m late

/-- What comes before a course, and the course. -/
theorem into {task : Task} {e e' : Engine σ} {result : Except ScriptError Unit}
    {inside : List (Engine σ)} (first : Aged before b) (framed : Framed b e)
    (course : Course task e result inside e') (aged : Aged inside e') :
    Aged (before ++ inside) e' :=
  first.append aged (fun m member => .of_framed (framed.trans (course.framed m member)))
    (.of_framed (framed.trans course.cascade.framed))

theorem snoc (first : Aged before b) (all : ∀ m ∈ before, Ages m c) : Aged (before ++ [c]) c where
  pairwise := by
    simpa [List.pairwise_append, first.pairwise] using all
  last := by
    simpa [or_imp, forall_and, Ages.of_preserves, Preserves.refl] using all

theorem andThen (first : Aged before b) (preserves : Preserves b c) : Aged (before ++ [c]) c :=
  first.snoc fun m member => (first.last m member).preserved preserves

end Aged

/-- Where the queue is full no rule is told of anything. -/
theorem Course.rule?_eq_of_full {task : Task} {e e' : Engine σ} {result : Except ScriptError Unit}
    {moments : List (Engine σ)} (course : Course task e result moments e')
    (unchecked : task.checked = [])
    (noRoom : e.dispatcher.limit ≤ e.dispatcher.pending.length) :
    ∀ m ∈ moments, m.rule? = e.rule? := by
  induction course with
  | asleep | unclear | broken | steady | tried | wrote => cases unchecked
  | unchanged =>
    intro m member
    rcases List.mem_pair.1 member with rfl | rfl <;> exact rule?_congr rfl
  | changed _ _ ih =>
    intro m member
    rcases List.mem_append.1 member with first | inside
    · rw [List.mem_singleton.1 first]
    · exact (ih rfl noRoom m inside).trans (rule?_congr rfl)
  | nil =>
    intro m member
    rw [List.mem_singleton.1 member]
  | cons first =>
    cases first with
    | taken verdict =>
      have room := ((Dispatcher.enter_eq_ok_iff _ _).1 verdict).2
      omega
  | stop _ ih => exact ih rfl noRoom
  | refused =>
    intro m member
    rcases List.mem_pair.1 member with rfl | rfl <;> exact rule?_congr rfl
  | taken verdict =>
    have room := ((Dispatcher.enter_eq_ok_iff _ _).1 verdict).2
    omega

namespace Course

variable {e e₁ e₂ e₃ e₄ e' : Engine σ} {id : ListenerId} {rule : Rule} {name : String}
  {value : Value} {outcome : Outcome Expr.Completion} {written result : Except ScriptError Unit}
  {inside : List (Engine σ)}

/-- Up to the action of a rule no rule ends. -/
theorem aged_judged {truth : Outcome Bool} (judged : Judged e id rule truth e₁) (held : Bool) :
    Aged [e, e₁, e₁.hold id held] (e₁.hold id held) := by
  have evaluated : Preserves e e₁ := .of_framed (.of_aside judged.aside)
  have noted : Preserves e₁ (e₁.hold id held) :=
    .of_framed ((Framed.refl e₁).hold judged.still_found judged.active held)
  exact ((Aged.single e).andThen evaluated).andThen noted

/-- While nobody is told of anything, a rule whose action has begun is active. -/
theorem not_hasCompleted_of_full (judged : Judged e id rule (.ready true) e₁)
    (aside : Aside (e₁.hold id true) e₂) (inner : Course (.write name value) e₂ written inside e₃)
    (noRoom : e₂.dispatcher.limit ≤ e₂.dispatcher.pending.length) (asideAfter : Aside e₃ e₄)
    {event : Event} :
    ∀ m ∈ [e, e₁, e₁.hold id true] ++ inside ++ [e₄, e₄.note event], ¬m.HasCompleted id := by
  have begun : e₂.rule? id = some { rule with held := true } := by
    rw [aside.rule?_eq]
    exact rule?_modifyRule_self judged.still_found _
  have during := inner.rule?_eq_of_full rfl noRoom
  obtain ⟨_, rfl⟩ := inner.ends
  have ended : e₃.rule? id = some { rule with held := true } := by
    rw [during e₃ (by simp), begun]
  have after : e₄.rule? id = some { rule with held := true } := by
    rw [asideAfter.rule?_eq, ended]
  have active := judged.active
  intro m member
  simp only [List.mem_append, List.mem_cons, List.not_mem_nil, or_false] at member
  rcases member with ((rfl | rfl | rfl) | within) | rfl | rfl
  · exact not_hasCompleted_of_active judged.found active
  · exact not_hasCompleted_of_active judged.still_found active
  · exact not_hasCompleted_of_active (rule?_modifyRule_self judged.still_found _) active
  · have same := congrFun (during m (by simpa using within)) id
    exact not_hasCompleted_of_active (same.trans begun) active
  · exact not_hasCompleted_of_active after active
  · exact not_hasCompleted_of_active (after : (e₄.note event).rule? id = _) active

/-- While its action writes a signal, the rule may be called back and complete. When the action has
returned, only the error of a cycle breaks the rule then: any other error that breaks it comes from
a queue that was full, and nobody was called back. -/
theorem aged_wrote (calm : e.dispatcher.Calm) (judged : Judged e id rule (.ready true) e₁)
    (writing : Writing (e₁.hold id true) rule.action name value e₂)
    (inner : Course (.write name value) e₂ written inside e₃) (aged : Aged inside e₃)
    (aside : Aside e₃ e₄)
    (outcome_eq : outcome = (Outcome.ofExcept written).map fun _ => rule.action.completion)
    (concluded : (e₄.note (.fired id outcome)).conclude id e.dispatcher.failures outcome =
      (result, e')) :
    Aged ([e, e₁, e₁.hold id true] ++ inside ++ [e₄, e₄.note (.fired id outcome)] ++ [e']) e' := by
  have same : e₂.dispatcher = e.dispatcher := judged.dispatcher writing.aside
  have body := (aged_judged judged true).into (.of_aside writing.aside) inner aged
  have noted : Aged ([e, e₁, e₁.hold id true] ++ inside ++ [e₄, e₄.note (.fired id outcome)])
      (e₄.note (.fired id outcome)) := by
    have returned := body.andThen (.of_framed (.of_aside aside))
    have noted : Preserves e₄ (e₄.note (.fired id outcome)) := .of_same rfl
    simpa using returned.andThen noted
  refine noted.snoc fun m member => (noted.last m member).conclude concluded ?_ ?_
  · rintro rfl failed
    cases written with
    | error _ => cases outcome_eq
    | ok _ =>
      have unbroken := inner.cascade.uneventful.unbroken id
      have broken := (hasFailed_of_same (congrFun aside.rule?_eq id)).1 failed
      rw [unbroken, judged.hasFailed writing.aside] at broken
      exact judged.not_hasFailed broken
  · rintro error rfl uncounted ordinary
    cases written with
    | ok _ => cases outcome_eq
    | error cause =>
      cases outcome_eq
      have counted : e₃.dispatcher.failures = e₂.dispatcher.failures := by
        rw [same, ← uncounted, ← aside.dispatcher]
        rfl
      -- an error of a failed listener would have been counted
      cases inner.cascade.fate (same ▸ calm) rfl ordinary with
      | full _ _ noRoom _ =>
        exact not_hasCompleted_of_full judged writing.aside inner noRoom aside m member
      | passed passed => exact absurd counted (Nat.ne_of_gt passed.counted)

/-- In the course of a task rules end for good, but a cycle may break one that has completed. -/
theorem aged {task : Task} {moments : List (Engine σ)} (course : Course task e result moments e')
    (calm : e.dispatcher.Calm) : Aged moments e' := by
  induction course with
  | asleep | nil => exact .single _
  | unclear judged => exact (Aged.single _).andThen (.of_framed (.of_aside judged.aside))
  | broken judged =>
    have evaluated := (Aged.single _).andThen (.of_framed (.of_aside judged.aside))
    exact evaluated.andThen (.of_framed ((Framed.refl _).breakDown judged.still_found judged.active _))
  | steady judged _ => exact aged_judged judged _
  | @tried _ _ e₂ _ id _ outcome _ judged _ attempt concluded =>
    have attempted := (aged_judged judged true).andThen (.of_framed (.of_aside attempt.aside))
    have noted := attempted.andThen (.of_framed ((Framed.refl e₂).note (.fired id outcome)))
    have found := rule?_modifyRule_self judged.still_found fun rule => { rule with held := true }
    have foundNoted : (e₂.note (.fired id outcome)).rule? id = some _ :=
      (congrFun attempt.aside.rule?_eq _).trans found
    have ended := (Framed.refl _).conclude foundNoted judged.active concluded
    exact noted.andThen (.of_framed ended)
  | wrote judged _ writing inner aside outcome_eq concluded ih =>
    have inside := ih (judged.dispatcher writing.aside ▸ calm)
    exact aged_wrote calm judged writing inner inside aside outcome_eq concluded
  | unchanged => exact (Aged.single _).andThen (.of_framed (.put _ _ _))
  | changed _ inner ih => exact (Aged.single _).into (.put _ _ _) inner (ih calm)
  | cons first rest ih ihRest =>
    exact (ih calm).into (.refl _) rest (ihRest (first.cascade.calm calm))
  | stop _ ih => exact ih calm
  | refused => exact (Aged.single _).andThen (.of_framed (.refuse _ _ _))
  | taken verdict inner ih =>
    have inside := ih (.inr (calm.enter_of_ok verdict))
    exact ((Aged.single _).into (.takeUp _ _) inner inside).andThen (.of_framed (.leave _ _ _))

end Course

/-- At the moments of a passage rules end for good, but a cycle may break one that has completed. -/
theorem Passage.aged {e e' : Engine σ} {moments : List (Engine σ)}
    (passage : Passage e moments e') : Aged moments e' := by
  induction passage with
  | stay e => exact .single e
  | task idle course => exact course.aged (.inl idle)
  | listen e rule => exact (Aged.single e).andThen (Passage.listen e rule).preserves.2
  | rewire rewired => exact (Aged.single _).andThen (Passage.rewire rewired).preserves.2
  | start found inactive =>
    exact (Aged.single _).andThen (Passage.start found inactive).preserves.2
  | stop e id => exact (Aged.single e).andThen (Passage.stop e id).preserves.2
  | advance e => exact (Aged.single e).andThen (Passage.advance e).preserves.2
  | trans _ rest ih ihRest => exact ih.append ihRest rest.preserves.1 rest.preserves.2

/-- If rules that have completed always stay so, they are so in the end. -/
theorem Passage.final {e e' m : Engine σ} {moments : List (Engine σ)} {id : ListenerId}
    (passage : Passage e moments e')
    (lasting : moments.Pairwise fun m m' => ∀ id, m.HasCompleted id → m'.HasCompleted id)
    (member : m ∈ moments) (completed : m.HasCompleted id) : e'.HasCompleted id := by
  obtain ⟨before, rfl⟩ := passage.ends
  rcases List.mem_append.1 member with earlier | last
  · exact (List.pairwise_append.1 lasting).2.2 m earlier e' (List.mem_singleton_self e') id completed
  · exact List.mem_singleton.1 last ▸ completed

/-! ## Rules that are completed -/

/-- The action of the rule has completed and is not to run again. -/
def DoneOnce (e : Engine σ) (id : ListenerId) : Prop :=
  .ready .doneOnce ∈ attempts id e.journal

theorem doneOnce_of_silent {e e' : Engine σ} {id : ListenerId} {events : List Event}
    (journal : e'.journal = e.journal ++ events) (none : ∀ event ∈ events, event.attempt? id = none)
    (done : e'.DoneOnce id) : e.DoneOnce id := by
  unfold DoneOnce at done
  rwa [journal, attempts_append_of_none none] at done

theorem doneOnce_of_aside {e e' : Engine σ} {id : ListenerId} (aside : Aside e e')
    (done : e'.DoneOnce id) : e.DoneOnce id := by
  obtain ⟨_, events, asides, rfl⟩ := aside
  exact doneOnce_of_silent rfl
    (fun event member => Event.attempt?_of_isAside (asides event member) id) done

theorem doneOnce_of_modifyRule {e : Engine σ} {id changed : ListenerId} {f : Rule → Rule}
    (done : (e.modifyRule changed f).DoneOnce id) : e.DoneOnce id := by
  rwa [modifyRule_eq] at done

/-- A completion that the journal tells of is in it at first, or can be seen in a moment. -/
def Shown (id : ListenerId) (e : Engine σ) (moments : List (Engine σ)) (e' : Engine σ) : Prop :=
  e'.DoneOnce id → e.DoneOnce id ∨ ∃ m ∈ moments, m.HasCompleted id

namespace Shown

variable {id : ListenerId} {a b c e e' : Engine σ} {before after moments : List (Engine σ)}

theorem of_silent (earlier : e'.DoneOnce id → e.DoneOnce id) : Shown id e moments e' :=
  fun done => .inl (earlier done)

theorem append (first : Shown id a before b) (rest : Shown id b after c) :
    Shown id a (before ++ after) c := by
  intro done
  rcases rest done with earlier | ⟨m, member, completed⟩
  · rcases first earlier with earlier | ⟨m, member, completed⟩
    · exact .inl earlier
    · exact .inr ⟨m, List.mem_append_left _ member, completed⟩
  · exact .inr ⟨m, List.mem_append_right _ member, completed⟩

/-- An action that is done and not to run again leaves its rule completed. -/
theorem concluded {own : ListenerId} {rule : Rule} {number : Nat}
    {outcome : Outcome Expr.Completion} {result : Except ScriptError Unit}
    (found : e.rule? own = some rule)
    (concluded : (e.note (.fired own outcome)).conclude own number outcome = (result, e')) :
    Shown id e [e'] e' := by
  intro done
  obtain ⟨_, _, same⟩ := settled_of_concluded concluded
  have noted : (e.note (.fired own outcome)).DoneOnce id := doneOnce_of_modifyRule (same ▸ done)
  by_cases last : outcome = .ready .doneOnce ∧ id = own
  · obtain ⟨rfl, rfl⟩ := last
    cases concluded
    exact .inr ⟨_, List.mem_singleton_self _, _, rule?_modifyRule_self (e := e.note _) found _, rfl⟩
  · left
    simp only [DoneOnce, note, attempts, List.filterMap_append, List.mem_append] at noted
    refine noted.resolve_right fun fired => last ?_
    simp only [List.mem_filterMap, List.mem_singleton, exists_eq_left, Event.attempt?] at fired
    split at fired
    · exact ⟨Option.some.inj fired, (‹own = id›).symm⟩
    · cases fired

end Shown

/-- The journal tells of no completion that cannot be seen in the course of the task. -/
theorem Course.shown {task : Task} {e e' : Engine σ} {result : Except ScriptError Unit}
    {moments : List (Engine σ)} (course : Course task e result moments e') (id : ListenerId) :
    Shown id e moments e' := by
  induction course with
  | asleep | nil | unchanged => exact .of_silent fun done => done
  | unclear judged => exact .of_silent (doneOnce_of_aside judged.aside)
  | broken judged | steady judged =>
    exact .of_silent fun done => doneOnce_of_aside judged.aside (doneOnce_of_modifyRule done)
  | @tried e e₁ e₂ _ own _ outcome _ judged _ attempt concluded =>
    have found := rule?_modifyRule_self judged.still_found fun rule => { rule with held := true }
    have begun : Shown id e [e, e₁, e₁.hold own true] (e₁.hold own true) :=
      .of_silent fun done => doneOnce_of_aside judged.aside (doneOnce_of_modifyRule done)
    have attempted : Shown id (e₁.hold own true) [e₂, e₂.note (.fired own outcome)] e₂ :=
      .of_silent (doneOnce_of_aside attempt.aside)
    exact (begun.append attempted).append
      (.concluded ((congrFun attempt.aside.rule?_eq _).trans found) concluded)
  | @wrote e e₁ e₂ e₃ e₄ _ own _ _ _ outcome _ _ _ judged _ writing inner aside _ concluded ih =>
    have found := rule?_modifyRule_self judged.still_found fun rule => { rule with held := true }
    obtain ⟨_, found, _⟩ :=
      inner.cascade.framed.rules ((congrFun writing.aside.rule?_eq _).trans found)
    have begun : Shown id e [e, e₁, e₁.hold own true] e₂ :=
      .of_silent fun done => doneOnce_of_aside judged.aside
        (doneOnce_of_modifyRule (doneOnce_of_aside writing.aside done))
    have returned : Shown id e₃ [e₄, e₄.note (.fired own outcome)] e₄ :=
      .of_silent (doneOnce_of_aside aside)
    exact ((begun.append ih).append returned).append
      (.concluded ((congrFun aside.rule?_eq _).trans found) concluded)
  | changed _ _ ih => exact Shown.append (.of_silent fun done => done) ih
  | cons _ _ ih ihRest => exact ih.append ihRest
  | stop _ ih => exact ih
  | refused => exact .of_silent (doneOnce_of_silent rfl (by simp [Event.attempt?]))
  | @taken e e₁ callback result _ _ _ ih =>
    have entered : Shown id e [e] (e.takeUp callback) :=
      .of_silent (doneOnce_of_silent rfl (by simp [Event.attempt?]))
    have left : Shown id e₁ [e₁.leave callback result] (e₁.leave callback result) :=
      .of_silent (doneOnce_of_silent rfl (by simp [Event.attempt?]))
    exact (entered.append ih).append left

theorem Passage.shown {e e' : Engine σ} {moments : List (Engine σ)}
    (passage : Passage e moments e') (id : ListenerId) : Shown id e moments e' := by
  induction passage with
  | stay | listen | advance => exact .of_silent fun done => done
  | task _ course => exact course.shown id
  | rewire rewired =>
    obtain ⟨_, _, events, _, setup, rfl⟩ := rewired
    exact .of_silent <| doneOnce_of_silent rfl
      fun event member => Event.attempt?_of_isSetup (setup event member) id
  | start | stop => exact .of_silent doneOnce_of_modifyRule
  | trans _ _ first rest => exact first.append rest

theorem Passage.exists_completed {config : Config} {foreign : σ} {moments : List (Engine σ)}
    {e : Engine σ} (session : Passage (create config foreign) moments e) {id : ListenerId}
    (done : e.DoneOnce id) : ∃ m ∈ moments, m.HasCompleted id := by
  rcases session.shown id done with never | some
  · cases never
  · exact some

theorem passage_of_reached {accepted : Reply → Prop} {e : Engine σ} (reached : Reached accepted e) :
    ∃ config foreign moments, Passage (create config foreign) moments e := by
  have next : ∀ {e e' : Engine σ}, Turn e e' →
      (∃ config foreign moments, Passage (create config foreign) moments e) →
        ∃ config foreign moments, Passage (create config foreign) moments e' := by
    rintro e e' turn ⟨config, foreign, moments, session⟩
    obtain ⟨later, passage⟩ := (session.quiescent (.create config foreign)).turn turn
    exact ⟨config, foreign, moments ++ later, session.trans passage⟩
  induction reached with
  | create config foreign => exact ⟨config, foreign, _, .stay _⟩
  | compile _ made ih =>
    obtain ⟨config, foreign, moments, session⟩ := ih
    exact ⟨config, foreign, _, session.trans (.listen _ _)⟩
  | build _ made ih => exact next (.build made) ih
  | command _ run _ ih => exact next (.command run) ih

/-- In a session with rules only, a rule that is over when the host application has its turn stays
as it is at all later moments. Within a chain, too, a broken rule stays broken at all later moments,
and a rule that has completed stays so or is broken by a cycle. -/
theorem rules_end_once {config : Config} {foreign : σ} {moments : List (Engine σ)} {e : Engine σ}
    (session : Passage (create config foreign) moments e) :
    moments.Pairwise Ages ∧ ∀ {e'}, Turn e e' →
      (∃ later, Passage e later e') ∧ ∀ {later}, Passage e later e' →
        Passage (create config foreign) (moments ++ later) e' ∧ ∀ m ∈ later, Preserves e m := by
  refine ⟨session.aged.pairwise, fun turn => ⟨?_, fun passage => ?_⟩⟩
  · exact (session.quiescent (.create config foreign)).turn turn
  · exact ⟨session.trans passage, passage.preserves.1⟩

/-- The fourth rule of the next session completes when it is called back inside its own action, and
is broken when that action goes on to tell the third rule, which tells itself. -/
def undone : Engine Unit :=
  meddlers
  |>.withRule ⟨1⟩ { condition := "(sig Signals.X)", action := "(act Signals.Set 'X' 200)" }
  |>.withRule ⟨1⟩
    { condition := "(or (sig Signals.A) (sig Signals.B))"
      action := "(act-once Signals.Set 'X' 100)" }
  |>.afterAll (fun _ => True) 9
    [.set "A" (.number (.ofInt 1)), .set "B" (.number (.ofInt 0)), .activate ⟨1⟩, .activate ⟨2⟩,
      .activate ⟨3⟩, .activate ⟨4⟩]

theorem reached_undone : Reached (fun _ => True) undone := by
  unfold undone
  exact ((reached_meddlers.withRule _ _).withRule _ _).afterAll _ _

theorem undone_known : (undone.rule? ⟨4⟩).map (·.state) = some .failed ∧ undone.DoneOnce ⟨4⟩ ∧
    ((Command.activate ⟨4⟩).run 9 undone).isSome := by
  unfold DoneOnce
  decide +kernel

theorem undone_hasFailed : undone.HasFailed ⟨4⟩ := by
  obtain ⟨rule, found, state⟩ := Option.map_eq_some_iff.1 undone_known.1
  exact ⟨rule, found, state⟩

/-- A completed rule can fail. -/
theorem not_completed_for_good :
    ¬∀ (config : Config) (moments : List (Engine Unit)) (e : Engine Unit),
      Passage (create config ()) moments e →
        moments.Pairwise fun m m' => ∀ id, m.HasCompleted id → m'.HasCompleted id := by
  intro claimed
  obtain ⟨config, ⟨⟩, moments, session⟩ := passage_of_reached reached_undone
  obtain ⟨m, member, completed⟩ := session.exists_completed undone_known.2.1
  exact undone_hasFailed.not_hasCompleted
    (session.final (claimed config moments undone session) member completed)

theorem undone_stays_undone : ∃ config moments later e',
    Passage (create config ()) moments undone ∧ moments.Pairwise Ages ∧ Turn undone e' ∧
      Passage (create config ()) (moments ++ later) e' ∧ ∀ m ∈ later, Preserves undone m := by
  obtain ⟨⟨reply, e'⟩, run⟩ := Option.isSome_iff_exists.1 undone_known.2.2
  have turn : Turn undone e' := .command run
  obtain ⟨config, ⟨⟩, moments, session⟩ := passage_of_reached reached_undone
  obtain ⟨ages, next⟩ := rules_end_once session
  obtain ⟨⟨later, passage⟩, onwards⟩ := next turn
  exact ⟨config, moments, later, e', session, ages, turn, onwards passage⟩

end Engine

end SignalRules
