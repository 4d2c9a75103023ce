import SignalRules.Proofs.Books
import SignalRules.Proofs.Traces

/-! # What an engine goes through

A cascade tells what becomes of an engine in the end. A course tells what it has been on the way as
well: after each change of a rule, a signal or the queue. Passages put courses one after the other,
with all that a host application may do in between, and so a session is a passage.
-/

namespace SignalRules

namespace Engine

variable {σ : Type}

/-- A cascade, and the engines that it passes through, the first and the last among them. -/
inductive Course : Task → Engine σ → Except ScriptError Unit → List (Engine σ) → Engine σ → Prop
    where
  | asleep {e : Engine σ} {id : ListenerId}
    (resting : ∀ rule, e.rule? id = some rule → rule.state ≠ .active) :
    Course (.check id) e (.ok ()) [e] e
  | unclear {e e₁ : Engine σ} {id : ListenerId} {rule : Rule} {reason : String}
    (judged : Judged e id rule (.interrupted reason) e₁) :
    Course (.check id) e (.ok ()) [e, e₁] e₁
  | broken {e e₁ : Engine σ} {id : ListenerId} {rule : Rule} {error : ScriptError}
    (judged : Judged e id rule (.failed error) e₁) :
    Course (.check id) e (.error error.intoRuntime) [e, e₁, e₁.breakDown id error.intoRuntime]
      (e₁.breakDown id error.intoRuntime)
  | steady {e e₁ : Engine σ} {id : ListenerId} {rule : Rule} {holds : Bool}
    (judged : Judged e id rule (.ready holds) e₁) (unarmed : (holds && !rule.held) = false) :
    Course (.check id) e (.ok ()) [e, e₁, e₁.hold id holds] (e₁.hold id holds)
  | tried {e e₁ e₂ e' : Engine σ} {id : ListenerId} {rule : Rule}
    {outcome : Outcome Expr.Completion} {result : Except ScriptError Unit}
    (judged : Judged e id rule (.ready true) e₁) (armed : rule.held = false)
    (attempt : Attempt (e₁.hold id true) rule.action outcome e₂)
    (concluded : (e₂.note (.fired id outcome)).conclude id e.dispatcher.failures outcome =
      (result, e')) :
    Course (.check id) e result
      [e, e₁, e₁.hold id true, e₂, e₂.note (.fired id outcome), e'] e'
  | wrote {e e₁ e₂ e₃ e₄ e' : Engine σ} {id : ListenerId} {rule : Rule} {name : String}
    {value : Value} {outcome : Outcome Expr.Completion} {written result : Except ScriptError Unit}
    {inside : List (Engine σ)}
    (judged : Judged e id rule (.ready true) e₁) (armed : rule.held = false)
    (writing : Writing (e₁.hold id true) rule.action name value e₂)
    (inner : Course (.write name value) e₂ written inside e₃) (aside : Aside e₃ e₄)
    (outcome_eq : outcome = (Outcome.ofExcept written).map fun _ => rule.action.completion)
    (concluded : (e₄.note (.fired id outcome)).conclude id e.dispatcher.failures outcome =
      (result, e')) :
    Course (.check id) e result
      ([e, e₁, e₁.hold id true] ++ inside ++ [e₄, e₄.note (.fired id outcome)] ++ [e']) e'
  | unchanged {e : Engine σ} {name : String} {value : Value}
    (had : e.globals.get? name = some value) :
    Course (.write name value) e (.ok ()) [e, { e with globals := e.globals.put name value }]
      { e with globals := e.globals.put name value }
  | changed {e e' : Engine σ} {name : String} {value : Value} {result : Except ScriptError Unit}
    {inside : List (Engine σ)} (new : e.globals.get? name ≠ some value)
    (inner : Course (.deliver (e.subscriptions.callbacks (Globals.fullName name)))
      { e with globals := e.globals.put name value } result inside e') :
    Course (.write name value) e result ([e] ++ inside) e'
  | nil {e : Engine σ} : Course (.deliver []) e (.ok ()) [e] e
  | cons {e e₁ e' : Engine σ} {callback : Callback} {callbacks : List Callback}
    {result : Except ScriptError Unit} {before after : List (Engine σ)}
    (first : Course (.schedule callback) e (.ok ()) before e₁)
    (rest : Course (.deliver callbacks) e₁ result after e') :
    Course (.deliver (callback :: callbacks)) e result (before ++ after) e'
  | stop {e e' : Engine σ} {callback : Callback} {callbacks : List Callback} {error : ScriptError}
    {inside : List (Engine σ)} (first : Course (.schedule callback) e (.error error) inside e') :
    Course (.deliver (callback :: callbacks)) e (.error error) inside e'
  | refused {e : Engine σ} {callback : Callback} {error : DispatchError}
    (verdict : (e.dispatcher.enter callback).2 = .error error) :
    Course (.schedule callback) e (.error (.dispatch error)) [e, e.refuse callback error]
      (e.refuse callback error)
  | taken {e e₁ : Engine σ} {callback : Callback} {result : Except ScriptError Unit}
    {inside : List (Engine σ)} (verdict : (e.dispatcher.enter callback).2 = .ok ())
    (inner : Course (.check callback.listener) (e.takeUp callback) result inside e₁) :
    Course (.schedule callback) e result ([e] ++ inside ++ [e₁.leave callback result])
      (e₁.leave callback result)

/-- Every cascade runs a course. -/
theorem Cascade.course {task : Task} {e e' : Engine σ} {result : Except ScriptError Unit}
    (cascade : Cascade task e result e') : ∃ moments, Course task e result moments e' := by
  induction cascade with
  | asleep resting => exact ⟨_, .asleep resting⟩
  | unclear judged => exact ⟨_, .unclear judged⟩
  | broken judged => exact ⟨_, .broken judged⟩
  | steady judged unarmed => exact ⟨_, .steady judged unarmed⟩
  | tried judged armed attempt concluded => exact ⟨_, .tried judged armed attempt concluded⟩
  | wrote judged armed writing _ aside outcome_eq concluded ih =>
    obtain ⟨_, inner⟩ := ih
    exact ⟨_, .wrote judged armed writing inner aside outcome_eq concluded⟩
  | unchanged had => exact ⟨_, .unchanged had⟩
  | changed new _ ih =>
    obtain ⟨_, inner⟩ := ih
    exact ⟨_, .changed new inner⟩
  | nil => exact ⟨_, .nil⟩
  | cons _ _ first rest =>
    obtain ⟨_, first⟩ := first
    obtain ⟨_, rest⟩ := rest
    exact ⟨_, .cons first rest⟩
  | stop _ ih =>
    obtain ⟨_, first⟩ := ih
    exact ⟨_, .stop first⟩
  | refused verdict => exact ⟨_, .refused verdict⟩
  | taken verdict _ ih =>
    obtain ⟨_, inner⟩ := ih
    exact ⟨_, .taken verdict inner⟩

namespace Course

variable {task : Task} {e e' : Engine σ} {result : Except ScriptError Unit}
  {moments : List (Engine σ)}

theorem cascade (course : Course task e result moments e') : Cascade task e result e' := by
  induction course with
  | asleep resting => exact .asleep resting
  | unclear judged => exact .unclear judged
  | broken judged => exact .broken judged
  | steady judged unarmed => exact .steady judged unarmed
  | tried judged armed attempt concluded => exact .tried judged armed attempt concluded
  | wrote judged armed writing _ aside outcome_eq concluded inner =>
    exact .wrote judged armed writing inner aside outcome_eq concluded
  | unchanged had => exact .unchanged had
  | changed new _ inner => exact .changed new inner
  | nil => exact .nil
  | cons _ _ first rest => exact .cons first rest
  | stop _ first => exact .stop first
  | refused verdict => exact .refused verdict
  | taken verdict _ inner => exact .taken verdict inner

/-- What no check, write or callback changes is the same all the way. -/
theorem framed (course : Course task e result moments e') : ∀ m ∈ moments, Framed e m := by
  induction course with
  | asleep | nil => simp [Framed.refl]
  | unclear judged => simp [Framed.refl, Framed.of_aside judged.aside]
  | broken judged =>
    have evaluated := Framed.of_aside judged.aside
    simp [Framed.refl, evaluated, evaluated.breakDown judged.found judged.active]
  | steady judged _ =>
    simp [Framed.refl, Framed.of_aside judged.aside, judged.framed_hold]
  | tried judged _ attempt concluded =>
    have attempted := (judged.framed_hold true).trans (.of_aside attempt.aside)
    have noted := attempted.note
    simp [Framed.refl, Framed.of_aside judged.aside, judged.framed_hold, attempted, noted,
      (noted _).conclude judged.found judged.active concluded]
  | wrote judged _ writing inner aside _ concluded ih =>
    have begun := (judged.framed_hold true).trans (.of_aside writing.aside)
    have written := (begun.trans inner.cascade.framed).trans (.of_aside aside)
    have noted := written.note
    have ended := (noted _).conclude judged.found judged.active concluded
    simp only [List.mem_append, List.mem_cons, List.not_mem_nil, or_false]
    rintro m ((((rfl | rfl | rfl) | inside) | rfl | rfl) | rfl)
    · exact .refl _
    · exact .of_aside judged.aside
    · exact judged.framed_hold true
    · exact begun.trans (ih m inside)
    · exact written
    · exact noted _
    · exact ended
  | unchanged => simp [Framed.refl, Framed.put]
  | changed _ _ ih =>
    simp only [List.mem_append, List.mem_singleton]
    rintro m (rfl | inside)
    · exact .refl _
    · exact (Framed.put _ _ _).trans (ih m inside)
  | cons first _ ih ihRest =>
    simp only [List.mem_append]
    rintro m (before | after)
    · exact ih m before
    · exact first.cascade.framed.trans (ihRest m after)
  | stop _ ih => exact ih
  | refused => simp [Framed.refl, Framed.refuse]
  | taken _ inner ih =>
    have inside := (Framed.takeUp _ _).trans inner.cascade.framed
    simp only [List.mem_append, List.mem_singleton]
    rintro m ((rfl | within) | rfl)
    · exact .refl _
    · exact (Framed.takeUp _ _).trans (ih m within)
    · exact inside.trans (.leave _ _ _)

/-- The last moment is what the course leads to. -/
theorem ends (course : Course task e result moments e') : ∃ before, moments = before ++ [e'] := by
  induction course with
  | asleep | nil => exact ⟨[], rfl⟩
  | unclear | unchanged | refused => exact ⟨[_], rfl⟩
  | broken | steady => exact ⟨[_, _], rfl⟩
  | tried => exact ⟨[_, _, _, _, _], rfl⟩
  | wrote | taken => exact ⟨_, rfl⟩
  | changed _ _ ih | cons _ _ _ ih =>
    obtain ⟨before, rfl⟩ := ih
    exact ⟨_ ++ before, (List.append_assoc _ _ _).symm⟩
  | stop _ ih => exact ih

end Course

/-! ## Passages -/

/-- The engines that an engine passes through while a host application has its way with it. Tasks
are begun with nothing pending. -/
inductive Passage : Engine σ → List (Engine σ) → Engine σ → Prop where
  | stay (e : Engine σ) : Passage e [e] e
  | task {task : Task} {e e' : Engine σ} {result : Except ScriptError Unit}
    {moments : List (Engine σ)} (idle : e.dispatcher.pending = [])
    (course : Course task e result moments e') : Passage e moments e'
  | listen (e : Engine σ) (rule : Rule) :
    Passage e [e, (e.addListener (.rule rule)).2] (e.addListener (.rule rule)).2
  | rewire {e e' : Engine σ} {id : ListenerId} (rewired : Rewired id e e') : Passage e [e, e'] e'
  | start {e : Engine σ} {id : ListenerId} {rule : Rule} (found : e.rule? id = some rule)
    (inactive : rule.state = .inactive) : Passage e [e, e.start id] (e.start id)
  | stop (e : Engine σ) (id : ListenerId) : Passage e [e, e.stop id] (e.stop id)
  | advance (e : Engine σ) : Passage e [e, { e with ticker := e.ticker.advance }]
    { e with ticker := e.ticker.advance }
  | trans {a b c : Engine σ} {before after : List (Engine σ)} (first : Passage a before b)
    (rest : Passage b after c) : Passage a (before ++ after) c

theorem Cascade.passage {task : Task} {e e' : Engine σ} {result : Except ScriptError Unit}
    (cascade : Cascade task e result e') (idle : e.dispatcher.pending = []) :
    ∃ moments, Passage e moments e' := by
  obtain ⟨moments, course⟩ := cascade.course
  exact ⟨moments, .task idle course⟩

theorem Step.passage {checked : List ListenerId} {e e' : Engine σ}
    {result : Except ScriptError Unit} (step : Step checked e result e')
    (idle : e.dispatcher.pending = []) : ∃ moments, Passage e moments e' := by
  cases step with
  | idle => exact ⟨_, .stay e⟩
  | write cascade | check cascade => exact cascade.passage idle
  | advance cascade =>
    obtain ⟨_, rest⟩ := cascade.passage idle
    exact ⟨_, (Passage.advance e).trans rest⟩
  | @activate _ e₁ _ id _ _ found inactive rewired _ cascade =>
    have found₁ := (congrFun rewired.rule?_eq id).trans found
    have idle₁ : (e₁.start id).dispatcher.pending = [] := by
      rw [dispatcher_start, rewired.dispatcher, idle]
    obtain ⟨_, rest⟩ := cascade.passage idle₁
    exact ⟨_, ((Passage.rewire rewired).trans (.start found₁ inactive)).trans rest⟩
  | giveUp _ _ rewired => exact ⟨_, .rewire rewired⟩
  | deactivate _ rewired => exact ⟨_, (Passage.rewire rewired).trans (.stop _ _)⟩

theorem Passage.ends {e e' : Engine σ} {moments : List (Engine σ)}
    (passage : Passage e moments e') : ∃ before, moments = before ++ [e'] := by
  induction passage with
  | stay => exact ⟨[], rfl⟩
  | task _ course => exact course.ends
  | listen | rewire | start | stop | advance => exact ⟨[_], rfl⟩
  | trans _ _ _ rest =>
    obtain ⟨before, rfl⟩ := rest
    exact ⟨_ ++ before, (List.append_assoc _ _ _).symm⟩

/-- Nothing is pending, and all listeners are rules. -/
structure Quiescent (e : Engine σ) : Prop where
  among : AmongRules e
  idle : e.dispatcher.pending = []

theorem Quiescent.create (config : Config) (foreign : σ) : Quiescent (create config foreign) :=
  ⟨.create config foreign, rfl⟩

/-- A host application has its next turn with nothing pending. -/
theorem Passage.quiescent {e e' : Engine σ} {moments : List (Engine σ)}
    (passage : Passage e moments e') (quiescent : Quiescent e) : Quiescent e' := by
  obtain ⟨among, idle⟩ := quiescent
  induction passage with
  | stay => exact ⟨among, idle⟩
  | task _ course =>
    obtain ⟨_, orderly⟩ := course.cascade.orderly
    exact ⟨among.of_framed course.cascade.framed,
      List.isEmpty_iff.1 (orderly.idle (List.isEmpty_iff.2 idle))⟩
  | listen e rule => exact ⟨among.addListener rule, idle⟩
  | rewire rewired => exact ⟨rewired.among among, rewired.dispatcher ▸ idle⟩
  | start => exact ⟨among.modifyRule _ _, (congrArg _ (dispatcher_start _ _)).trans idle⟩
  | stop => exact ⟨among.modifyRule _ _, (congrArg _ (dispatcher_modifyRule _ _ _)).trans idle⟩
  | advance => exact ⟨⟨among.listeners, among.devices⟩, idle⟩
  | trans _ _ first rest =>
    obtain ⟨among₁, idle₁⟩ := first among idle
    exact rest among₁ idle₁

/-- What a host application can do in one turn: tell an engine something about its rules, make a
rule, or use a book. -/
inductive Turn : Engine σ → Engine σ → Prop where
  | command {e e' : Engine σ} {depth : Nat} {command : Command} {reply : Reply}
    (run : command.run depth e = some (reply, e')) : Turn e e'
  | compile {e e' : Engine σ} {host : HostId} {record : RuleRecord}
    {result : Except ScriptError ListenerId}
    (run : compileRule host record e = some (result, e')) : Turn e e'
  | build {e : Engine σ} {host : HostId} {condition : Expr} {action : Call} {rule : Rule}
    (made : Rule.ofParts host condition action = .ok rule) : Turn e (e.addListener (.rule rule)).2
  | add {e e' : Engine σ} {depth : Nat} {book book' : Book} {record : RuleRecord}
    {result : Except ScriptError ListenerId}
    (run : book.add (handle depth) record e = some ((result, book'), e')) : Turn e e'
  | importText {e e' : Engine σ} {depth : Nat} {book book' : Book} {text : String}
    {policy : Option ImportPolicy} {result : Except ImportError ImportReport}
    (run : book.importText (handle depth) text policy e = some ((result, book'), e')) : Turn e e'
  | removeCompleted {e e' : Engine σ} {book book' : Book} {number : Nat}
    (run : book.removeCompleted e = some ((number, book'), e')) : Turn e e'
  | clear {e e' : Engine σ} {book book' : Book} (run : book.clear e = some (book', e')) : Turn e e'

namespace Quiescent

variable {e e' : Engine σ} (quiescent : Quiescent e)

include quiescent

theorem steps {results : List (Except ScriptError Unit)} (steps : Steps e results e') :
    ∃ moments, Passage e moments e' := by
  induction steps with
  | nil => exact ⟨_, .stay _⟩
  | cons step _ ih =>
    obtain ⟨_, first⟩ := step.passage quiescent.idle
    obtain ⟨_, rest⟩ := ih (first.quiescent quiescent)
    exact ⟨_, first.trans rest⟩

theorem compileRule {host : HostId} {record : RuleRecord} {result : Except ScriptError ListenerId}
    (run : compileRule host record e = some (result, e')) : ∃ moments, Passage e moments e' := by
  rcases compileRule_cases run with ⟨_, _, rfl⟩ | ⟨rule, _, _, rfl⟩
  · exact ⟨_, .stay _⟩
  · exact ⟨_, .listen e rule⟩

theorem activate {depth : Nat} {id : ListenerId} {result : Except ScriptError Unit}
    (run : activate (handle depth) id e = some (result, e')) : ∃ moments, Passage e moments e' :=
  (activate_step quiescent.among run).passage quiescent.idle

theorem deactivateAll {ids : List ListenerId} {done : PUnit}
    (run : ids.forM deactivate e = some (done, e')) : ∃ moments, Passage e moments e' := by
  induction ids generalizing e with
  | nil =>
    cases run
    exact ⟨_, .stay _⟩
  | cons id ids ih =>
    obtain ⟨_, e₁, ran, run⟩ := Run.bind_eq_some_iff.1 run
    obtain ⟨_, first⟩ := (deactivate_step ran).passage quiescent.idle
    obtain ⟨_, rest⟩ := ih (first.quiescent quiescent) run
    exact ⟨_, first.trans rest⟩

/-- A rule is taken in and activated. -/
theorem takeIn {depth : Nat} {rule : Rule} {result : Except ScriptError Unit}
    (run : Engine.activate (handle depth) (e.addListener (.rule rule)).1
      (e.addListener (.rule rule)).2 = some (result, e')) : ∃ moments, Passage e moments e' := by
  have first := Passage.listen e rule
  obtain ⟨_, second⟩ := (first.quiescent quiescent).activate run
  exact ⟨_, first.trans second⟩

theorem add {depth : Nat} {book book' : Book} {record : RuleRecord}
    {result : Except ScriptError ListenerId}
    (run : book.add (handle depth) record e = some ((result, book'), e')) :
    ∃ moments, Passage e moments e' := by
  obtain ⟨_, _, _, rfl⟩ | ⟨rule, _, _, activate, _⟩ := Book.add_cases run
  · exact ⟨_, .stay _⟩
  · exact quiescent.takeIn activate

theorem addAll {depth : Nat} {book book' : Book} {records : List RuleRecord}
    (run : book.addAll (handle depth) records e = some (book', e')) :
    ∃ moments, Passage e moments e' := by
  induction records generalizing e book with
  | nil =>
    cases run
    exact ⟨_, .stay _⟩
  | cons record records ih =>
    obtain ⟨_, _, rest⟩ | ⟨rule, _, e₁, _, activate, rest⟩ := Book.addAll_cons_cases run
    · exact ih quiescent rest
    · obtain ⟨_, first⟩ := quiescent.takeIn activate
      obtain ⟨_, others⟩ := ih (first.quiescent quiescent) rest
      exact ⟨_, first.trans others⟩

/-- Whatever a host application does in one turn is a passage. -/
theorem turn (turn : Turn e e') : ∃ moments, Passage e moments e' := by
  cases turn with
  | command run =>
    obtain ⟨_, steps, _⟩ := command_steps quiescent.among run
    exact quiescent.steps steps
  | compile run => exact quiescent.compileRule run
  | build => exact ⟨_, .listen e _⟩
  | add run => exact quiescent.add run
  | importText run =>
    obtain ⟨_, _, _, rfl⟩ | ⟨report, _, _, added⟩ := Book.importText_cases run
    · exact ⟨_, .stay _⟩
    · exact quiescent.addAll added
  | removeCompleted run =>
    obtain ⟨_, ran, _⟩ := Book.removeCompleted_cases run
    exact quiescent.deactivateAll ran
  | clear run => exact quiescent.deactivateAll (Book.clear_cases run).1

end Quiescent

end Engine

end SignalRules
