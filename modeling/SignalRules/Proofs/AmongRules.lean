import SignalRules.Proofs.Cascade

/-! # Runs among rules

Where all listeners are rules and devices make no requests, every run is a cascade.
-/

namespace SignalRules

namespace Engine

variable {σ α : Type}

/-- All listeners are rules, and devices call nobody back. -/
structure AmongRules (e : Engine σ) : Prop where
  listeners : ∀ {id listener}, e.listener? id = some listener → ∃ rule, listener = .rule rule
  devices : ∀ device ∈ e.devices, ∀ action values, (device.perform action values).Quiet

theorem AmongRules.of_framed {e e' : Engine σ} (among : AmongRules e) (framed : Framed e e') :
    AmongRules e' where
  listeners := by
    intro id listener known
    cases found : e.rule? id with
    | none => exact among.listeners (framed.strangers found ▸ known)
    | some rule =>
      obtain ⟨rule', found', _⟩ := framed.rules found
      rw [listener?_eq_of_rule? found'] at known
      injection known with same
      exact ⟨rule', same.symm⟩
  devices := by
    rw [framed.devices]
    exact among.devices

/-! ## What providers do by themselves -/

/-- A program that makes no requests leaves only traces. -/
theorem runProgram_quiet {handler : Handler σ} {program : Program σ α} (quiet : program.Quiet)
    {e e' : Engine σ} {a : α} (run : runProgram handler program e = some (a, e')) : Aside e e' := by
  induction quiet generalizing e with
  | finish a =>
    cases run
    exact .refl _
  | inspect _ ih =>
    rw [runProgram, Run.get_bind_apply] at run
    exact ih _ _ run
  | update _ ih =>
    rw [runProgram, Run.modify_bind_apply] at run
    exact (Aside.foreign e _).trans (ih run)
  | remark _ ih =>
    rw [runProgram, record_bind_apply] at run
    exact (Aside.note rfl e).trans (ih run)

theorem device_mem {e : Engine σ} {name : String} {device : Device σ}
    (known : e.provider name = .ok (.device device)) : device ∈ e.devices := by
  unfold provider at known
  split at known
  · cases known
  · split at known
    · cases known
    · split at known
      · cases known
      · split at known
        · rename_i found
          cases known
          exact List.mem_of_find?_eq_some found
        · cases known

variable {handler : Handler σ}

/-- An action writes a global signal, or it is over at once. -/
theorem act_cases {e e' : Engine σ} (among : AmongRules e) {action : Ref} {values : List Value}
    {outcome : Outcome Unit} (run : act handler action values e = some (outcome, e')) :
    (Aside e e' ∧ (e.devices = [] → ∀ reason, outcome ≠ .interrupted reason)) ∨
    ∃ name value written, action.name = Globals.setAction ∧ values = [.string name, value] ∧
      setGlobal handler name value e = some (written, e') ∧ outcome = .ofExcept written := by
  have refused : ∀ {error : ScriptError},
      (pure (.failed error) : Run σ (Outcome Unit)) e = some (outcome, e') →
        Aside e e' ∧ (e.devices = [] → ∀ reason, outcome ≠ .interrupted reason) := by
    rintro error ⟨⟩
    exact ⟨.refl e, fun _ _ => nofun⟩
  cases known : e.provider action.name with
  | error error =>
    simp only [act, Run.get_bind_apply, known] at run
    exact .inl (refused run)
  | ok provider =>
    cases provider with
    | globals =>
      simp only [act, Run.get_bind_apply, known] at run
      by_cases isSet : action.name = Globals.setAction
      · rw [if_pos isSet] at run
        rcases values with _ | ⟨name, _ | ⟨value, _ | _⟩⟩
        · exact .inl (refused run)
        · exact .inl (refused run)
        · cases name with
          | number _ => exact .inl (refused run)
          | string name =>
            obtain ⟨written, e₁, ran, finish⟩ := Run.bind_eq_some_iff.1 run
            cases finish
            exact .inr ⟨name, value, written, isSet, rfl, ran, rfl⟩
        · exact .inl (refused run)
      · rw [if_neg isSet] at run
        exact .inl (refused run)
    | diagnostics =>
      simp only [act, Run.get_bind_apply, known] at run
      by_cases isLog : action.name = Diagnostics.logAction
      · rw [if_pos isLog] at run
        rcases values with _ | ⟨message, _⟩
        · exact .inl (refused run)
        · cases message with
          | number _ => exact .inl (refused run)
          | string message =>
            cases run
            exact .inl ⟨.note rfl e, fun _ _ => nofun⟩
      · rw [if_neg isLog] at run
        exact .inl (refused run)
    | device device =>
      simp only [act, Run.get_bind_apply, known] at run
      refine .inl ⟨runProgram_quiet (among.devices device (device_mem known) _ _) run, ?_⟩
      exact fun bare => absurd known (provider_of_no_devices bare _ device)

/-- What becomes of an outcome of an action that was called is said by the call. -/
theorem attempt_of_called {e e' : Engine σ} {call : Call} {outcome : Outcome Unit}
    (performed : performCall handler call e =
      some (outcome.map fun _ => call.completion, e'))
    (aside : Aside e e') (never : e.devices = [] → ∀ reason, outcome ≠ .interrupted reason) :
    Attempt e call (outcome.map fun _ => call.completion) e' where
  performed := ⟨handler, performed⟩
  aside := aside
  completion := by
    intro c same
    cases outcome with
    | ready _ =>
      cases same
      rfl
    | interrupted _ | failed _ => cases same
  notPutOff := by
    intro bare _ reason same
    cases outcome with
    | ready _ | failed _ => cases same
    | interrupted reason => exact never bare reason rfl

/-- A call writes a global signal, or it is over at once. -/
theorem performCall_cases {e e' : Engine σ} (among : AmongRules e) {call : Call}
    {outcome : Outcome Expr.Completion}
    (run : performCall handler call e = some (outcome, e')) :
    Attempt e call outcome e' ∨
    ∃ name value e₁ written e₂, Writing e call name value e₁ ∧
      setGlobal handler name value e₁ = some (written, e₂) ∧ Aside e₂ e' ∧
      outcome = (Outcome.ofExcept written).map fun _ => call.completion := by
  obtain ⟨os, e₁, ran, aside, same⟩ := arguments_run call e
  obtain ⟨_, _, ran', rest⟩ := Run.bind_eq_some_iff.1 run
  rw [ran] at ran'
  cases ran'
  cases os with
  | failed error =>
    cases rest
    exact .inl ⟨aside, fun _ => nofun, fun _ _ _ => nofun, ⟨handler, run⟩⟩
  | interrupted reason =>
    cases rest
    exact .inl ⟨aside, fun _ => nofun, fun bare settled _ _ =>
      Expr.argumentValues_ne_interrupted settled reason (same bare).symm, ⟨handler, run⟩⟩
  | ready values =>
    obtain ⟨_, _, performed, finish⟩ := Run.bind_eq_some_iff.1 rest
    cases finish
    rw [perform, record_bind_apply] at performed
    obtain ⟨answer, e₂, acted, finish⟩ := Run.bind_eq_some_iff.1 performed
    cases finish
    have called : Aside e (e₁.note (.called call.binding.ref values)) :=
      aside.trans (.note rfl e₁)
    rcases act_cases (among.of_framed (.of_aside called)) acted with
      ⟨aside', never⟩ | ⟨name, value, written, isSet, rfl, ran, rfl⟩
    · refine .inl (attempt_of_called run ((called.trans aside').trans (.note rfl e₂)) ?_)
      exact fun bare => never (called.devices.trans bare)
    · exact .inr ⟨name, value, _, written, e₂, ⟨isSet, called, fun bare => (same bare).symm⟩, ran,
        .note rfl e₂, rfl⟩

theorem fire_cases {e e' : Engine σ} {id : ListenerId} {call : Call}
    {result : Except ScriptError Unit} (run : fire handler id call e = some (result, e')) :
    ∃ outcome e₁, performCall handler call e = some (outcome, e₁) ∧
      (e₁.note (.fired id outcome)).conclude id e.dispatcher.failures outcome = (result, e') := by
  rw [fire, Run.get_bind_apply] at run
  obtain ⟨outcome, e₁, ran, run⟩ := Run.bind_eq_some_iff.1 run
  rw [record_bind_apply] at run
  refine ⟨outcome, e₁, ran, ?_⟩
  cases outcome with
  | ready c =>
    cases c <;> cases run <;> rfl
  | interrupted _ =>
    cases run
    rfl
  | failed error =>
    simp only [Run.get_bind_apply] at run
    by_cases grown : (e₁.note (.fired id (.failed error))).dispatcher.failures ≠
        e.dispatcher.failures
    · rw [if_pos grown] at run
      cases run
      rw [conclude, if_pos grown]
    · rw [if_neg grown] at run
      cases run
      rw [conclude, if_neg grown]
      rfl

/-- What checking a rule comes to, up to its action. -/
theorem check_cases {e e' : Engine σ} {id : ListenerId} {result : Except ScriptError Unit}
    (run : check handler id e = some (result, e')) :
    ((∀ rule, e.rule? id = some rule → rule.state ≠ .active) ∧ result = .ok () ∧ e' = e) ∨
    ∃ rule truth e₁, Judged e id rule truth e₁ ∧
      match truth with
      | .interrupted _ => result = .ok () ∧ e' = e₁
      | .failed error =>
        result = .error error.intoRuntime ∧ e' = e₁.breakDown id error.intoRuntime
      | .ready holds =>
        if holds && !rule.held then
          ∃ outcome e₂, performCall handler rule.action (e₁.hold id holds) = some (outcome, e₂) ∧
            (e₂.note (.fired id outcome)).conclude id e.dispatcher.failures outcome = (result, e')
        else result = .ok () ∧ e' = e₁.hold id holds := by
  simp only [check, Run.get_bind_apply] at run
  cases found : e.rule? id with
  | none =>
    simp only [found] at run
    cases run
    exact .inl ⟨fun _ => nofun, rfl, rfl⟩
  | some rule =>
    simp only [found] at run
    by_cases active : rule.state = .active
    · rw [if_neg (Decidable.not_not.2 active)] at run
      obtain ⟨value, e₁, ran, aside, same⟩ := evaluate_run rule.condition e
      obtain ⟨_, _, ran', run⟩ := Run.bind_eq_some_iff.1 run
      rw [ran] at ran'
      cases ran'
      refine .inr ⟨rule, value.andThen fun v => .ofExcept v.isTrue, e₁,
        ⟨found, active, aside, fun bare => by rw [Expr.truth, same bare], value, ran, rfl⟩, ?_⟩
      cases value with
      | interrupted reason =>
        cases run
        exact ⟨rfl, rfl⟩
      | failed error =>
        cases run
        exact ⟨rfl, rfl⟩
      | ready value =>
        cases truth : value.isTrue with
        | error error =>
          simp only [truth] at run
          simp only [Outcome.andThen, truth, Outcome.ofExcept]
          cases run
          exact ⟨rfl, rfl⟩
        | ok holds =>
          simp only [truth] at run
          rw [changeRule, Run.modify_bind_apply] at run
          simp only [Outcome.andThen, truth, Outcome.ofExcept]
          by_cases fires : holds && !rule.held
          · rw [if_pos fires] at run ⊢
            obtain ⟨outcome, e₂, ran, concluded⟩ := fire_cases run
            refine ⟨outcome, e₂, ran, ?_⟩
            rw [← concluded, dispatcher_modifyRule, aside.dispatcher]
          · rw [if_neg fires] at run ⊢
            cases run
            exact ⟨rfl, rfl⟩
    · rw [if_pos active] at run
      cases run
      refine .inl ⟨?_, rfl, rfl⟩
      rintro _ ⟨⟩
      exact active

/-! ## Runs are cascades -/

/-- The handler carries out callbacks as cascades do. -/
def Follows (handler : Handler σ) : Prop :=
  ∀ (callback : Callback) (e e' : Engine σ) (result : Except ScriptError Unit), AmongRules e →
    handler (.schedule callback) e = some (result, e') → Cascade (.schedule callback) e result e'

namespace Follows

variable (follows : Follows handler) {e e' : Engine σ} {result : Except ScriptError Unit}

include follows

theorem forEach (among : AmongRules e) {signal : String} {listeners : List ListenerId}
    (run : forEach (fun listener => handler (.schedule ⟨signal, listener⟩)) listeners e =
      some (result, e')) :
    Cascade (.deliver (listeners.map fun listener => ⟨signal, listener⟩)) e result e' := by
  induction listeners generalizing e with
  | nil =>
    cases run
    exact .nil
  | cons listener listeners ih =>
    rw [Engine.forEach] at run
    obtain ⟨answer, e₁, ran, run⟩ := Run.bind_eq_some_iff.1 run
    have first := follows _ _ _ _ among ran
    cases answer with
    | error error =>
      cases run
      exact .stop first
    | ok _ => exact .cons first (ih (among.of_framed first.framed) run)

theorem announceEach (among : AmongRules e) {signal : String} {hosts : List HostId}
    (run : Engine.forEach (fun host => announce handler ⟨signal, host⟩) hosts e =
      some (result, e')) :
    Cascade (.deliver (hosts.flatMap fun host =>
      (e.subscriptions.listeners ⟨signal, host⟩).map fun listener => ⟨signal, listener⟩))
      e result e' := by
  induction hosts generalizing e with
  | nil =>
    cases run
    exact .nil
  | cons host hosts ih =>
    rw [Engine.forEach] at run
    obtain ⟨answer, e₁, ran, run⟩ := Run.bind_eq_some_iff.1 run
    have first := follows.forEach among ran
    rw [List.flatMap_cons]
    cases answer with
    | error error =>
      cases run
      exact first.append_error _
    | ok _ =>
      have rest := ih (among.of_framed first.framed) run
      rw [first.framed.subscriptions] at rest
      exact first.append rest

theorem announceEverywhere (among : AmongRules e) {signal : String}
    (run : announceEverywhere handler signal e = some (result, e')) :
    Cascade (.deliver (e.subscriptions.callbacks signal)) e result e' :=
  follows.announceEach among run

theorem setGlobal (among : AmongRules e) {name : String} {value : Value}
    (run : setGlobal handler name value e = some (result, e')) :
    Cascade (.write name value) e result e' := by
  rw [Engine.setGlobal, Run.get_bind_apply, Run.modify_bind_apply] at run
  by_cases had : e.globals.get? name = some value
  · rw [if_pos had] at run
    cases run
    exact .unchanged had
  · rw [if_neg had] at run
    exact .changed had (follows.announceEverywhere (among.of_framed (.put e name value)) run)

theorem check (among : AmongRules e) {id : ListenerId}
    (run : check handler id e = some (result, e')) : Cascade (.check id) e result e' := by
  rcases check_cases run with ⟨resting, rfl, rfl⟩ | ⟨rule, truth, e₁, judged, rest⟩
  · exact .asleep resting
  · cases truth with
    | interrupted reason =>
      obtain ⟨rfl, rfl⟩ := rest
      exact .unclear judged
    | failed error =>
      obtain ⟨rfl, rfl⟩ := rest
      exact .broken judged
    | ready holds =>
      by_cases fires : (holds && !rule.held) = true
      · simp only [fires, if_true] at rest
        obtain ⟨outcome, e₂, ran, concluded⟩ := rest
        obtain ⟨rfl, armed⟩ : holds = true ∧ rule.held = false := by simpa using fires
        have held := (Framed.of_aside judged.aside).hold judged.found judged.active true
        rcases performCall_cases (among.of_framed held) ran with
          attempt | ⟨name, value, e₃, written, e₄, writing, set, aside, rfl⟩
        · exact .tried judged armed attempt concluded
        · have amongStill := among.of_framed (held.trans (.of_aside writing.aside))
          exact .wrote judged armed writing (follows.setGlobal amongStill set) aside rfl concluded
      · have unarmed := Bool.eq_false_iff.2 fires
        simp only [unarmed, Bool.false_eq_true, if_false] at rest
        obtain ⟨rfl, rfl⟩ := rest
        exact .steady judged unarmed

theorem schedule (among : AmongRules e) {callback : Callback}
    (run : schedule handler callback e = some (result, e')) :
    Cascade (.schedule callback) e result e' := by
  rcases schedule_cases run with ⟨error, verdict, rfl, rfl⟩ | ⟨verdict, e₁, responded, rfl⟩
  · exact .refused verdict
  · have amongStill := among.of_framed (.takeUp e callback)
    refine .taken verdict ?_
    rw [respond, Run.get_bind_apply] at responded
    cases known : (e.takeUp callback).listener? callback.listener with
    | none =>
      simp only [known] at responded
      cases responded
      refine .asleep fun rule found => ?_
      rw [listener?_eq_of_rule? found] at known
      cases known
    | some listener =>
      obtain ⟨rule, rfl⟩ := amongStill.listeners known
      simp only [known] at responded
      exact follows.check amongStill responded

end Follows

theorem handle_follows : ∀ depth, Follows (handle (σ := σ) depth)
  | 0 => fun _ _ _ _ _ run => by cases run
  | depth + 1 => fun _ _ _ _ among run => (handle_follows depth).schedule among run

end Engine

end SignalRules
