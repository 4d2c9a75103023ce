import SignalRules.Proofs.Culprits
import SignalRules.Proofs.Declared

/-! # Refused callbacks

Without devices, errors of the dispatcher come from nowhere but refused callbacks, and each refusal
is entered in the journal.
-/

namespace SignalRules

/-- Why a callback was refused. -/
def Event.refusal? : Event → Option DispatchError
  | .refused _ cause => some cause
  | _ => none

theorem selective_refusal? : Selective Event.refusal? := by
  intro event aside
  cases event <;> first | rfl | cases aside

theorem Event.refusal?_of_isSetup {event : Event} (setup : event.isSetup) :
    event.refusal? = none := by
  cases event <;> first | rfl | cases setup

/-- Why callbacks were refused, one after the other. -/
def refusals (events : List Event) : List DispatchError :=
  events.filterMap Event.refusal?

theorem refusals_append (first rest : List Event) :
    refusals (first ++ rest) = refusals first ++ refusals rest :=
  List.filterMap_append

theorem refusals_append_of_none {events : List Event}
    (none : ∀ event ∈ events, event.refusal? = none) (before : List Event) :
    refusals (before ++ events) = refusals before := by
  have nothing : refusals events = [] := List.filterMap_eq_nil_iff.2 none
  rw [refusals_append, nothing, List.append_nil]

namespace Engine

variable {σ : Type}

/-- If the error is that of a refused callback, the journal tells of the refusal. -/
def Tells (e : Engine σ) (error : ScriptError) : Prop :=
  ∀ cause, error = .dispatch cause → cause ∈ refusals e.journal

namespace Tells

variable {e e' : Engine σ} {error : ScriptError}

theorem of_ordinary (ordinary : error.isRefusal = false) : e.Tells error := by
  rintro cause rfl
  cases ordinary

theorem note (tells : e.Tells error) (event : Event) : (e.note event).Tells error := by
  intro cause same
  rw [Engine.note, refusals_append]
  exact List.mem_append_left _ (tells cause same)

theorem modifyRule (tells : e.Tells error) (id : ListenerId) (f : Rule → Rule) :
    (e.modifyRule id f).Tells error := by
  rw [modifyRule_eq]
  exact tells

theorem intoRuntime (tells : e.Tells error) : e.Tells error.intoRuntime := by
  unfold ScriptError.intoRuntime
  split
  · exact of_ordinary rfl
  · exact tells

end Tells

/-- There are rules only, no devices, and no rule is particular about values. -/
structure Candid (e : Engine σ) : Prop where
  among : AmongRules e
  bare : e.devices = []
  unguarded : ∀ {id rule}, e.rule? id = some rule → rule.Unguarded

theorem Candid.of_keeps {e e' : Engine σ} (candid : Candid e) (kept : Keeps e' e)
    (among : AmongRules e') (devices : e'.devices = e.devices) : Candid e' where
  among := among
  bare := devices.trans candid.bare
  unguarded found' := by
    obtain ⟨rule, found, parts⟩ := kept _ _ found'
    exact (candid.unguarded found).of_parts parts

theorem Candid.framed {e e' : Engine σ} (candid : Candid e) (framed : Framed e e') : Candid e' :=
  candid.of_keeps framed.keeps_from (candid.among.of_framed framed) framed.devices

/-- The errors of callbacks that are carried out by the handler are told. -/
def Frank (handler : Handler σ) : Prop :=
  ∀ (callback : Callback) (e e' : Engine σ) (error : ScriptError), Candid e →
    handler (.schedule callback) e = some (.error error, e') → e'.Tells error

/-! ## Parts of a run -/

namespace Frank

variable {handler : Handler σ} {e e' : Engine σ} {error : ScriptError}

section

variable (follows : Follows handler) (frank : Frank handler)

include follows frank

theorem forEach (candid : Candid e) {signal : String} {listeners : List ListenerId}
    (run : forEach (fun listener => handler (.schedule ⟨signal, listener⟩)) listeners e =
      some (.error error, e')) : e'.Tells error := by
  induction listeners generalizing e with
  | nil => cases run
  | cons listener listeners ih =>
    rw [Engine.forEach] at run
    obtain ⟨answer, e₁, ran, run⟩ := Run.bind_eq_some_iff.1 run
    cases answer with
    | error error =>
      cases run
      exact frank _ _ _ _ candid ran
    | ok _ => exact ih (candid.framed (follows _ _ _ _ candid.among ran).framed) run

theorem announceEach (candid : Candid e) {signal : String} {hosts : List HostId}
    (run : Engine.forEach (fun host => announce handler ⟨signal, host⟩) hosts e =
      some (.error error, e')) : e'.Tells error := by
  induction hosts generalizing e with
  | nil => cases run
  | cons host hosts ih =>
    rw [Engine.forEach] at run
    obtain ⟨answer, e₁, ran, run⟩ := Run.bind_eq_some_iff.1 run
    cases answer with
    | error error =>
      cases run
      exact forEach follows frank candid ran
    | ok _ => exact ih (candid.framed (follows.forEach candid.among ran).framed) run

theorem setGlobal (candid : Candid e) {name : String} {value : Value}
    (run : setGlobal handler name value e = some (.error error, e')) : e'.Tells error := by
  rw [Engine.setGlobal, Run.get_bind_apply, Run.modify_bind_apply] at run
  split at run
  · cases run
  · exact announceEach follows frank (candid.framed (.put e name value)) run

theorem act (candid : Candid e) {action : Ref} {values : List Value}
    (run : act handler action values e = some (.failed error, e')) : e'.Tells error := by
  simp only [Engine.act, Run.get_bind_apply] at run
  cases known : e.provider action.name with
  | error error =>
    simp only [known] at run
    cases run
    exact .of_ordinary (isRefusal_of_provider known)
  | ok provider =>
    cases provider with
    | globals =>
      simp only [known] at run
      split at run
      · split at run
        · rename_i name value
          cases name with
          | number _ =>
            cases run
            exact .of_ordinary rfl
          | string name =>
            obtain ⟨written, e₁, ran, finish⟩ := Run.bind_eq_some_iff.1 run
            cases written <;> cases finish
            exact setGlobal follows frank candid ran
        · cases run
          exact .of_ordinary rfl
      · cases run
        exact .of_ordinary rfl
    | diagnostics =>
      simp only [known] at run
      split at run
      · split at run
        · rename_i message _
          cases message <;> cases run
          exact .of_ordinary rfl
        · cases run
          exact .of_ordinary rfl
      · cases run
        exact .of_ordinary rfl
    | device device => exact absurd known (provider_of_no_devices candid.bare _ device)

theorem performCall (candid : Candid e) {call : Call}
    (args : Expr.Unguarded (Tree.signalsAll call.args))
    (arguments : ∀ d ∈ call.binding.definition.arguments, d.Unguarded)
    (run : performCall handler call e = some (.failed error, e')) : e'.Tells error := by
  obtain ⟨os, e₁, ran, aside, same⟩ := arguments_run call e
  obtain ⟨_, _, ran', rest⟩ := Run.bind_eq_some_iff.1 run
  rw [ran] at ran'
  cases ran'
  cases os with
  | failed error =>
    cases rest
    have source := unrefused_outcome candid.bare
    exact .of_ordinary
      (Expr.unrefused_argumentValues source args arguments _ (same candid.bare).symm)
  | interrupted _ => cases rest
  | ready values =>
    obtain ⟨outcome, _, performed, finish⟩ := Run.bind_eq_some_iff.1 rest
    rw [perform, record_bind_apply] at performed
    obtain ⟨_, e₂, acted, ended⟩ := Run.bind_eq_some_iff.1 performed
    cases ended
    cases outcome <;> cases finish
    have called : Candid (e₁.note (.called call.binding.ref values)) :=
      candid.framed (.of_aside (aside.trans (.note rfl e₁)))
    exact (act follows frank called acted).note _

theorem check (candid : Candid e) {id : ListenerId}
    (run : check handler id e = some (.error error, e')) : e'.Tells error := by
  rcases check_cases run with ⟨_, ⟨⟩, _⟩ | ⟨rule, truth, e₁, judged, rest⟩
  have unguarded := candid.unguarded judged.found
  cases truth with
  | interrupted _ => cases rest.1
  | failed cause =>
    obtain ⟨⟨⟩, rfl⟩ := rest
    have source := unrefused_outcome candid.bare
    have unrefused := (Expr.unrefused_value source unguarded.condition).andThen
      fun v _ => v.unrefused_isTrue
    have ordinary := unrefused cause (judged.truth_eq candid.bare).symm
    exact Tells.intoRuntime (.of_ordinary ordinary)
  | ready holds =>
    simp only at rest
    split at rest
    · obtain ⟨outcome, e₂, ran, concluded⟩ := rest
      obtain ⟨f, _, settled⟩ := settled_of_concluded concluded
      cases outcome with
      | ready c => cases c <;> cases concluded
      | interrupted _ => cases concluded
      | failed cause =>
        have told : e₂.Tells cause := performCall follows frank
          (candid.framed (judged.framed_hold holds)) unguarded.args unguarded.arguments ran
        have here : e'.Tells cause := by
          rw [settled]
          exact (told.note _).modifyRule id f
        rcases conclude_failed concluded with ⟨_, ⟨⟩, _⟩ | ⟨_, ⟨⟩, _⟩
        · exact here
        · exact here.intoRuntime
    · cases rest.1

theorem schedule (candid : Candid e) {callback : Callback}
    (run : schedule handler callback e = some (.error error, e')) : e'.Tells error := by
  rcases schedule_cases run with ⟨refusal, _, ⟨⟩, rfl⟩ | ⟨_, e₁, responded, rfl⟩
  · rintro cause ⟨⟩
    rw [refuse, note, refusals_append]
    exact List.mem_append_right _ List.mem_cons_self
  · have begun := candid.framed (.takeUp e callback)
    rw [respond, Run.get_bind_apply] at responded
    cases known : (e.takeUp callback).listener? callback.listener with
    | none =>
      simp only [known] at responded
      cases responded
    | some listener =>
      obtain ⟨rule, rfl⟩ := begun.among.listeners known
      simp only [known] at responded
      have told : e₁.Tells error := check follows frank begun responded
      have ended :
          Tells { e₁ with dispatcher := e₁.dispatcher.leave callback (.error error) } error := told
      exact ended.note _

end

theorem handle : ∀ depth, Frank (Engine.handle (σ := σ) depth)
  | 0 => fun _ _ _ _ _ run => by cases run
  | depth + 1 => fun _ _ _ _ candid run => (handle depth).schedule (handle_follows depth) candid run

end Frank

/-! ## Commands -/

theorem isRefusal_of_checkSubscribe {e : Engine σ} (bare : e.devices = []) {signal : Ref}
    {error : ScriptError} (refused : e.checkSubscribe signal = .error error) :
    error.isRefusal = false := by
  unfold checkSubscribe at refused
  split at refused
  · cases refused
    exact isRefusal_of_provider ‹_›
  · cases parsed : Globals.localName signal.name with
    | ok _ =>
      rw [parsed] at refused
      cases refused
    | error _ =>
      rw [parsed] at refused
      cases refused
      exact isRefusal_of_localName parsed
  · exact isRefusal_of_checkSignal refused
  · exact absurd ‹_› (provider_of_no_devices bare _ _)

theorem isRefusal_of_subscribe {e e' : Engine σ} (bare : e.devices = []) {signal : Ref}
    {id : ListenerId} {error : ScriptError}
    (run : subscribe signal id e = some (.error error, e')) : error.isRefusal = false := by
  simp only [subscribe, Run.get_bind_apply] at run
  cases allowed : e.checkSubscribe signal with
  | error error =>
    simp only [allowed] at run
    cases run
    exact isRefusal_of_checkSubscribe bare allowed
  | ok _ =>
    simp only [allowed] at run
    cases run

theorem isRefusal_of_subscribeAll {signals : List Ref} {id : ListenerId} {e e' : Engine σ}
    (bare : e.devices = []) {error : ScriptError}
    (run : forEach (fun signal => subscribe signal id) signals e = some (.error error, e')) :
    error.isRefusal = false := by
  induction signals generalizing e with
  | nil => cases run
  | cons signal signals ih =>
    rw [forEach] at run
    obtain ⟨answer, e₁, ran, run⟩ := Run.bind_eq_some_iff.1 run
    cases answer with
    | error error =>
      cases run
      exact isRefusal_of_subscribe bare ran
    | ok _ => exact ih ((Rewired.subscribe ran).1.bare bare) run

theorem isRefusal_of_install {e e' : Engine σ} (bare : e.devices = []) {owner : Option ListenerId}
    {action : Ref} {error : ScriptError}
    (run : install owner action e = some (.error error, e')) : error.isRefusal = false := by
  simp only [install, Run.get_bind_apply] at run
  cases known : e.provider action.name with
  | error error =>
    simp only [known] at run
    cases run
    exact isRefusal_of_provider known
  | ok provider =>
    cases provider with
    | globals | diagnostics =>
      simp only [known] at run
      cases run
    | device device => exact absurd known (provider_of_no_devices bare _ device)

theorem activate_tells {depth : Nat} {id : ListenerId} {e e' : Engine σ} {error : ScriptError}
    (candid : Candid e) (run : activate (handle depth) id e = some (.error error, e')) :
    e'.Tells error := by
  cases activation run with
  | notInstalled _ _ installs =>
    exact .of_ordinary (isRefusal_of_install candid.bare installs)
  | notSubscribed _ _ installs subscribes =>
    have first : Rewired id _ _ := .install installs
    exact .of_ordinary (isRefusal_of_subscribeAll (first.bare candid.bare) subscribes)
  | @listening _ e₂ _ _ _ _ _ installs subscribes checked =>
    have rewired := (Rewired.install installs).trans (Rewired.subscribeAll subscribes).1
    have among := (rewired.among candid.among).modifyRule id fun rule =>
      { rule with state := .active, held := false }
    have kept : Keeps (e₂.start id) e := (keeps_from_start e₂ id).trans rewired.keeps_from
    have devices : (e₂.start id).devices = e.devices :=
      ((devices_modifyRule e₂ id _).trans (rewired.bare candid.bare)).trans candid.bare.symm
    exact (Frank.handle depth).check (handle_follows depth)
      (candid.of_keeps kept among devices) checked

/-- Where a command ends with an error of the dispatcher, the journal tells of it. -/
theorem command_tells {depth : Nat} {command : Command} {e e' : Engine σ} {error : ScriptError}
    (candid : Candid e) (run : command.run depth e = some (.result (.error error), e')) :
    e'.Tells error := by
  cases command with
  | tick book =>
    obtain ⟨_, _, _, finish⟩ := Run.bind_eq_some_iff.1 run
    cases finish
  | set name value =>
    obtain ⟨_, _, ran, finish⟩ := Run.bind_eq_some_iff.1 run
    cases finish
    obtain ⟨depth, served⟩ := served_of_handle ran
    rw [serve] at served
    split at served
    · cases value with
      | number n => exact (Frank.handle depth).setGlobal (handle_follows depth) candid served
      | string s =>
        cases served
        exact .of_ordinary rfl
    · cases served
      exact .of_ordinary rfl
  | advance =>
    obtain ⟨_, _, ran, finish⟩ := Run.bind_eq_some_iff.1 run
    cases finish
    obtain ⟨depth, served⟩ := served_of_handle ran
    rw [serve, advanceTicker, Run.modify_bind_apply] at served
    have advanced : Candid { e with ticker := e.ticker.advance } :=
      candid.of_keeps (.of_listeners rfl) ⟨candid.among.listeners, candid.among.devices⟩ rfl
    exact (Frank.handle depth).announceEach (handle_follows depth) advanced served
  | activate id =>
    obtain ⟨_, _, ran, finish⟩ := Run.bind_eq_some_iff.1 run
    cases finish
    obtain ⟨_, served⟩ := served_of_handle ran
    exact activate_tells candid served
  | deactivate id =>
    obtain ⟨_, _, ran, finish⟩ := Run.bind_eq_some_iff.1 run
    cases finish
    obtain ⟨_, served⟩ := served_of_handle ran
    obtain ⟨_, _, _, finish⟩ := Run.bind_eq_some_iff.1 served
    cases finish
  | check id =>
    obtain ⟨_, _, ran, finish⟩ := Run.bind_eq_some_iff.1 run
    cases finish
    obtain ⟨depth, served⟩ := served_of_handle ran
    exact (Frank.handle depth).check (handle_follows depth) candid served

end Engine

end SignalRules
