import SignalRules.Proofs.Ending

/-! # Invariants

A property of engines that is kept by each of the things that runs are made of is kept by runs.
Nothing is asked of foreign listeners and devices. Runs may be watched while they are carried out:
a run `within` some listeners has no result if a request reaches any other.
-/

namespace SignalRules

namespace Engine

variable {σ α β : Type}

/-! ## Runs within listeners -/

/-- The listener that a request is for, and is certain to reach. -/
def reaches? (e : Engine σ) : Request → Option ListenerId
  | .schedule callback =>
    if callback ∉ e.dispatcher.pending ∧ e.dispatcher.pending.length < e.dispatcher.limit then
      some callback.listener
    else none
  | .activate rule => some rule
  | .deactivate rule => some rule
  | .check rule => some rule
  | _ => none

section

variable (free : ListenerId → Prop) [DecidablePred free]

/-- Carry out requests as `handle` does, as long as they reach no listener but those that are
free. -/
def handleWithin : Nat → Handler σ
  | 0, _ => failure
  | depth + 1, request => do
    if ∀ id ∈ (← get).reaches? request, free id then serve (handleWithin depth) request
    else failure

variable {free}

theorem handleWithin_cases {depth : Nat} {request : Request} {e e' : Engine σ}
    {result : Except ScriptError Unit}
    (run : handleWithin free depth request e = some (result, e')) :
    ∃ less, depth = less + 1 ∧ (∀ id ∈ e.reaches? request, free id) ∧
      serve (handleWithin free less) request e = some (result, e') := by
  cases depth with
  | zero => cases run
  | succ less =>
    rw [handleWithin, Run.get_bind_apply] at run
    split at run
    · rename_i reached
      exact ⟨less, rfl, reached, run⟩
    · cases run

/-- Runs within listeners are runs. -/
theorem Refines.handleWithin (depth : Nat) (request : Request) :
    Refines (Engine.handleWithin free depth request : Run σ _) (Engine.handle depth request) := by
  induction depth generalizing request with
  | zero =>
    intro e result e' run
    cases run
  | succ depth ih =>
    intro e result e' run
    obtain ⟨less, same, _, served⟩ := handleWithin_cases run
    cases same
    exact Refines.serve ih request e result e' served

theorem handleWithin_eq_handle (all : ∀ id, free id) (depth : Nat) :
    handleWithin (σ := σ) free depth = handle depth := by
  induction depth with
  | zero => rfl
  | succ depth ih =>
    funext request e
    rw [handleWithin, Run.get_bind_apply, if_pos fun id _ => all id, ih, handle]

end

/-! ## Invariants -/

/-- The computation keeps the property. -/
def Maintains (I : Engine σ → Prop) (run : Run σ α) : Prop :=
  ∀ e a e', I e → run e = some (a, e') → I e'

/-- A property that whatever runs are made of keeps, where only free listeners are reached. Rules
perform good calls only. -/
structure Invariant (free : ListenerId → Prop) (good : Call → Prop) (I : Engine σ → Prop) :
    Prop where
  aside : ∀ {e e' : Engine σ}, I e → Aside e e' → I e'
  rewired : ∀ {e e' : Engine σ} {id : ListenerId}, I e → Rewired id e e' → I e'
  dispatched : ∀ {e : Engine σ} {dispatcher : Dispatcher} {event : Event}, I e →
    event.isApart = false → I ({ e with dispatcher }.note event)
  advanced : ∀ {e : Engine σ}, I e → I { e with ticker := e.ticker.advance }
  modified : ∀ {e : Engine σ} {id : ListenerId} {f : Rule → Rule}, I e → free id →
    (∀ rule, (f rule).parts = rule.parts) → I (e.modifyRule id f)
  fired : ∀ {e : Engine σ} {id : ListenerId} {outcome : Outcome Expr.Completion}, I e → free id →
    I (e.note (.fired id outcome))
  set : ∀ {e : Engine σ} {name : String} {n : Fixed}, I e → Globals.isName name →
    I { e with globals := e.globals.put name (.number n) }
  action : ∀ {e : Engine σ} {id : ListenerId} {rule : Rule}, I e → e.rule? id = some rule →
    good rule.action
  /-- A call comes to write a global signal. -/
  written : ∀ {e e₁ : Engine σ} {call : Call} {name : String} {value : Value}, I e → good call →
    call.binding.ref.name = Globals.setAction →
      Expr.arguments read call e = some (.ready [.string name, value], e₁) →
        I (e₁.note (.called call.binding.ref [.string name, value])) →
          I { e₁.note (.called call.binding.ref [.string name, value]) with
            globals := e₁.globals.put name value }

namespace Maintains

variable {I : Engine σ → Prop}

theorem pure (a : α) : Maintains I (pure a : Run σ α) := by
  rintro e _ _ holds ⟨⟩
  exact holds

theorem bind {x : Run σ α} {f : α → Run σ β} (first : Maintains I x)
    (rest : ∀ a, Maintains I (f a)) : Maintains I (x >>= f) := by
  intro e b e' holds run
  obtain ⟨a, e₁, ran, run⟩ := Run.bind_eq_some_iff.1 run
  exact rest a _ _ _ (first _ _ _ holds ran) run

theorem get_bind {f : Engine σ → Run σ β} (rest : ∀ e, Maintains I (f e)) :
    Maintains I (get >>= f) := by
  intro e b e' holds run
  rw [Run.get_bind_apply] at run
  exact rest e _ _ _ holds run

theorem modify {f : Engine σ → Engine σ} (each : ∀ e, I e → I (f e)) :
    Maintains I (modify f : Run σ Unit) := by
  rintro e _ _ holds ⟨⟩
  exact each e holds

theorem forEach {f : α → Run σ (Except ScriptError Unit)} (each : ∀ a, Maintains I (f a)) :
    ∀ as, Maintains I (forEach f as)
  | [] => pure _
  | a :: as => bind (each a) fun
    | .ok _ => forEach each as
    | .error _ => pure _

end Maintains

namespace Invariant

variable {free : ListenerId → Prop} {good : Call → Prop} {I : Engine σ → Prop}
  (invariant : Invariant free good I)

include invariant

theorem record {event : Event} (aside : event.isAside) :
    Maintains I (record event : Run σ Unit) :=
  .modify fun e holds => invariant.aside holds (.note aside e)

theorem install (owner : Option ListenerId) (action : Ref) :
    Maintains I (install (σ := σ) owner action) :=
  fun _ _ _ holds run => invariant.rewired holds (Rewired.install run : Rewired ⟨0⟩ _ _)

theorem uninstall (owner : Option ListenerId) (action : Ref) :
    Maintains I (uninstall (σ := σ) owner action) :=
  fun _ _ _ holds run => invariant.rewired holds (Rewired.uninstall run : Rewired ⟨0⟩ _ _)

theorem subscribe (signal : Ref) (listener : ListenerId) :
    Maintains I (subscribe (σ := σ) signal listener) :=
  fun _ _ _ holds run => invariant.rewired holds (Rewired.subscribe run).1

theorem unsubscribe (signal : Ref) (listener : ListenerId) :
    Maintains I (unsubscribe (σ := σ) signal listener) := by
  intro e done e' holds run
  have all : ([signal].forM fun signal => Engine.unsubscribe signal listener) e =
      some (done, e') := by
    cases run
    rfl
  exact invariant.rewired holds (.unsubscribeAll all)

theorem detach (id : ListenerId) (rule : Rule) : Maintains I (detach (σ := σ) id rule) :=
  fun _ _ _ holds run => invariant.rewired holds (.detach run)

theorem deactivate {id : ListenerId} (isFree : free id) : Maintains I (deactivate (σ := σ) id) := by
  refine .get_bind fun e => ?_
  split
  · exact .pure _
  · refine .bind (invariant.detach id _) fun _ => .modify fun e holds => ?_
    refine invariant.modified holds isFree fun rule => ?_
    split <;> rfl

/-! ## Changes of signals -/

variable {handler : Handler σ} (keeps : ∀ request, Maintains I (handler request))

include keeps

theorem runProgram (program : Program σ α) : Maintains I (runProgram handler program) := by
  induction program with
  | finish a => exact .pure a
  | request r next ih => exact .bind (keeps r) ih
  | inspect next ih => exact .get_bind fun e => ih e.foreign e.dispatcher.pending
  | update f next ih =>
    exact .bind (.modify fun e holds => invariant.aside holds (.foreign e _)) fun _ => ih
  | remark label result next ih => exact .bind (invariant.record rfl) fun _ => ih

omit invariant in
theorem announce (signal : Ref) : Maintains I (announce handler signal) :=
  .get_bind fun _ => .forEach (fun _ => keeps _) _

omit invariant in
theorem announceEverywhere (signal : String) : Maintains I (announceEverywhere handler signal) :=
  .get_bind fun _ => .forEach (fun _ => announce keeps _) _

omit invariant in
theorem setGlobal {e e' : Engine σ} {name : String} {value : Value}
    {result : Except ScriptError Unit} (written : I { e with globals := e.globals.put name value })
    (run : setGlobal handler name value e = some (result, e')) : I e' := by
  rw [Engine.setGlobal, Run.get_bind_apply, Run.modify_bind_apply] at run
  split at run
  · cases run
    exact written
  · exact announceEverywhere keeps _ _ _ _ written run

theorem advanceTicker : Maintains I (advanceTicker handler) :=
  .bind (.modify fun _ => invariant.advanced) fun _ => announceEverywhere keeps _

/-! ## Actions -/

theorem act {e e' : Engine σ} {action : Ref} {values : List Value} {outcome : Outcome Unit}
    (holds : I e)
    (written : action.name = Globals.setAction → ∀ name value, values = [.string name, value] →
      I { e with globals := e.globals.put name value })
    (run : act handler action values e = some (outcome, e')) : I e' := by
  simp only [Engine.act, Run.get_bind_apply] at run
  cases known : e.provider action.name with
  | error error =>
    simp only [known] at run
    cases run
    exact holds
  | ok provider =>
    cases provider with
    | globals =>
      simp only [known] at run
      split at run
      · rename_i isSet
        split at run
        · rename_i name value
          cases name with
          | number _ =>
            cases run
            exact holds
          | string name =>
            obtain ⟨result, e₁, ran, finish⟩ := Run.bind_eq_some_iff.1 run
            cases finish
            exact setGlobal keeps (written isSet name value rfl) ran
        · cases run
          exact holds
      · cases run
        exact holds
    | diagnostics =>
      simp only [known] at run
      revert run
      suffices Maintains I _ from this e outcome e' holds
      split
      · split
        · split
          · exact .bind (invariant.record rfl) fun _ => .pure _
          · exact .pure _
        · exact .pure _
      · exact .pure _
    | device device =>
      simp only [known] at run
      exact invariant.runProgram keeps _ _ _ _ holds run

theorem performCall {call : Call} (isGood : good call) :
    Maintains I (performCall handler call) := by
  intro e completion e' holds run
  obtain ⟨outcome, e₁, evaluated, aside, _⟩ := arguments_run call e
  obtain ⟨_, _, ran, run⟩ := Run.bind_eq_some_iff.1 run
  cases evaluated.symm.trans ran
  have holds₁ := invariant.aside holds aside
  cases outcome with
  | interrupted _ | failed _ =>
    cases run
    exact holds₁
  | ready values =>
    obtain ⟨_, _, performed, finish⟩ := Run.bind_eq_some_iff.1 run
    cases finish
    rw [perform, record_bind_apply] at performed
    obtain ⟨answer, e₂, acted, finish⟩ := Run.bind_eq_some_iff.1 performed
    cases finish
    have called : I (e₁.note (.called call.binding.ref values)) :=
      invariant.aside holds₁ (.note rfl e₁)
    have holds₂ : I e₂ := by
      apply invariant.act keeps called _ acted
      rintro isSet name value rfl
      exact invariant.written holds isGood isSet evaluated called
    exact invariant.aside holds₂ (.note rfl e₂)

/-! ## Rules -/

theorem check {id : ListenerId} (isFree : free id) : Maintains I (check handler id) := by
  intro e result e' holds run
  obtain ⟨_, _, rfl⟩ | ⟨rule, truth, e₁, judged, rest⟩ := check_cases run
  · exact holds
  · have judgedHolds := invariant.aside holds judged.aside
    have broken (error : ScriptError) : I (e₁.breakDown id error) :=
      invariant.modified judgedHolds isFree fun _ => rfl
    have held (holds : Bool) : I (e₁.hold id holds) :=
      invariant.modified judgedHolds isFree fun _ => rfl
    cases truth with
    | interrupted _ =>
      obtain ⟨_, rfl⟩ := rest
      exact judgedHolds
    | failed error =>
      obtain ⟨_, rfl⟩ := rest
      exact broken _
    | ready holds =>
      dsimp only at rest
      split at rest
      · obtain ⟨outcome, e₂, ran, concluded⟩ := rest
        have isGood := invariant.action judgedHolds judged.still_found
        have performed := invariant.performCall keeps isGood _ _ _ (held holds) ran
        have fired : I (e₂.note (.fired id outcome)) := invariant.fired performed isFree
        obtain ⟨f, settles, rfl⟩ := settled_of_concluded concluded
        refine invariant.modified fired isFree fun rule => ?_
        obtain ⟨_, _, _, same⟩ := settles.parts rule
        rw [same]
        rfl
      · obtain ⟨_, rfl⟩ := rest
        exact held holds

theorem activate {id : ListenerId} (isFree : free id) : Maintains I (activate handler id) := by
  intro e result e' holds run
  cases activation run with
  | idle => exact holds
  | notInstalled _ _ installs => exact invariant.install _ _ _ _ _ holds installs
  | notSubscribed _ _ installs subscribes detaches =>
    have installed := invariant.install _ _ _ _ _ holds installs
    have subscribed := invariant.rewired installed (Rewired.subscribeAll subscribes).1
    exact invariant.detach _ _ _ _ _ subscribed detaches
  | @listening _ e₂ _ _ _ _ _ installs subscribes checked =>
    have installed := invariant.install _ _ _ _ _ holds installs
    have subscribed := invariant.rewired installed (Rewired.subscribeAll subscribes).1
    have started : I (e₂.start id) := invariant.modified subscribed isFree fun _ => rfl
    exact invariant.check keeps isFree _ _ _ started checked

/-! ## Requests -/

theorem respond {callback : Callback} (isFree : free callback.listener) :
    Maintains I (respond handler callback) := by
  refine .get_bind fun e => ?_
  split
  · exact .pure _
  · exact invariant.check keeps isFree
  · exact invariant.runProgram keeps _

theorem schedule {callback : Callback} {e e' : Engine σ} {result : Except ScriptError Unit}
    (isFree : ∀ id ∈ e.reaches? (.schedule callback), free id) (holds : I e)
    (run : schedule handler callback e = some (result, e')) : I e' := by
  obtain ⟨error, _, _, rfl⟩ | ⟨taken, e₁, responded, rfl⟩ := schedule_cases run
  · exact invariant.dispatched holds rfl
  · have reached : e.reaches? (.schedule callback) = some callback.listener :=
      if_pos ((Dispatcher.enter_eq_ok_iff _ _).1 taken)
    have isFree := isFree callback.listener (by simp [reached])
    have takenUp : I (e.takeUp callback) := invariant.dispatched holds rfl
    exact invariant.dispatched (invariant.respond keeps isFree _ _ _ takenUp responded) rfl

theorem serve {request : Request} {e e' : Engine σ} {result : Except ScriptError Unit}
    (isFree : ∀ id ∈ e.reaches? request, free id) (holds : I e)
    (run : serve handler request e = some (result, e')) : I e' := by
  cases request with
  | schedule callback => exact invariant.schedule keeps isFree holds run
  | announce signal => exact announce keeps signal _ _ _ holds run
  | set name value =>
    rw [Engine.serve] at run
    split at run
    · rename_i isName
      cases value with
      | number n => exact setGlobal keeps (invariant.set holds isName) run
      | string _ =>
        cases run
        exact holds
    · cases run
      exact holds
  | advance => exact invariant.advanceTicker keeps _ _ _ holds run
  | subscribe signal listener => exact invariant.subscribe signal listener _ _ _ holds run
  | unsubscribe signal listener =>
    exact Maintains.bind (invariant.unsubscribe signal listener) (fun _ => .pure _) _ _ _ holds run
  | activate id => exact invariant.activate keeps (isFree id rfl) _ _ _ holds run
  | deactivate id =>
    have isFree := isFree id rfl
    exact Maintains.bind (invariant.deactivate isFree) (fun _ => .pure _) _ _ _ holds run
  | check id => exact invariant.check keeps (isFree id rfl) _ _ _ holds run
  | install action => exact invariant.install none action _ _ _ holds run
  | uninstall action =>
    exact Maintains.bind (invariant.uninstall none action) (fun _ => .pure _) _ _ _ holds run

omit keeps in
/-- An invariant holds throughout whatever requests lead to. -/
theorem handleWithin [DecidablePred free] (depth : Nat) (request : Request) :
    Maintains I (handleWithin free depth request) := by
  induction depth generalizing request with
  | zero =>
    intro e result e' _ run
    cases run
  | succ depth ih =>
    intro e result e' holds run
    obtain ⟨_, same, isFree, served⟩ := handleWithin_cases run
    cases same
    exact invariant.serve ih isFree holds served

end Invariant

end Engine

end SignalRules
