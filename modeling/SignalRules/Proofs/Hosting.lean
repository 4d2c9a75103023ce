import SignalRules.Proofs.Traces

/-! # Sessions with devices

A host application may bring devices of its own. As long as these call nobody back, and all
listeners are rules, whatever the host application does comes to cascades, and it finds the queue
empty each time it has a turn.
-/

namespace SignalRules

namespace Engine

variable {σ α : Type}

/-- The engines of sessions with rules, and with devices that call nobody back. -/
inductive Hosted : Engine σ → Prop where
  | create (config : Config) (foreign : σ) : Hosted (create config foreign)
  | register {e e' : Engine σ} {device : Device σ} : Hosted e →
    (∀ action values, (device.perform action values).Quiet) → e.register device = .ok e' → Hosted e'
  | listen {e : Engine σ} (rule : Rule) : Hosted e → Hosted (e.addListener (.rule rule)).2
  | program {e e' : Engine σ} {α : Type} {depth : Nat} {program : Program σ α} {a : α} :
    Hosted e → runProgram (handle depth) program e = some (a, e') → Hosted e'
  | read {e e' : Engine σ} {signal : Ref} {outcome : Outcome Value} :
    Hosted e → read signal e = some (outcome, e') → Hosted e'
  | perform {e e' : Engine σ} {depth : Nat} {action : Ref} {values : List Value}
      {outcome : Outcome Unit} :
    Hosted e → perform (handle depth) action values e = some (outcome, e') → Hosted e'

theorem Hosted.reachable {e : Engine σ} (hosted : Hosted e) : Reachable e := by
  induction hosted with
  | create config foreign => exact .create config foreign
  | register _ _ registered before => exact .register before registered
  | listen _ _ before => exact .listen _ before
  | program _ ran before => exact .program before ran
  | read _ ran before => exact .read before ran
  | perform _ ran before => exact .perform before ran

theorem Hosted.idle {e : Engine σ} (hosted : Hosted e) : e.dispatcher.pending = [] := by
  obtain ⟨config, foreign, events, orderly⟩ := hosted.reachable.related Orderly.closed
  rcases orderly.keptOrDropped with kept | dropped
  · exact kept
  · exact dropped

/-! ## All listeners stay rules -/

theorem AmongRules.handled {e e' : Engine σ} (among : AmongRules e) {depth : Nat}
    {request : Request} {result : Except ScriptError Unit}
    (run : handle depth request e = some (result, e')) : AmongRules e' := by
  obtain ⟨depth, served⟩ := served_of_handle run
  have follows : Follows (handle (σ := σ) depth) := handle_follows depth
  cases request with
  | schedule callback => exact among.of_framed (follows.schedule among served).framed
  | announce signal => exact among.of_framed (follows.forEach among served).framed
  | set name value => exact (set_step among served).among among
  | advance => exact (advance_step among served).among among
  | subscribe signal listener => exact (Rewired.subscribe served).1.among among
  | unsubscribe signal listener =>
    cases served
    exact ⟨among.listeners, among.devices⟩
  | activate id => exact (activate_step among served).among among
  | deactivate id =>
    obtain ⟨_, _, ran, finish⟩ := Run.bind_eq_some_iff.1 served
    cases finish
    exact (deactivate_step ran).among among
  | check id => exact among.of_framed (follows.check among served).framed
  | install action =>
    have rewired : Rewired ⟨0⟩ e e' := .install served
    exact rewired.among among
  | uninstall action =>
    obtain ⟨_, _, ran, finish⟩ := Run.bind_eq_some_iff.1 served
    cases finish
    have rewired : Rewired ⟨0⟩ e e' := .uninstall ran
    exact rewired.among among

theorem AmongRules.programmed {e e' : Engine σ} (among : AmongRules e) {depth : Nat}
    {program : Program σ α} {a : α} (run : runProgram (handle depth) program e = some (a, e')) :
    AmongRules e' := by
  induction program generalizing e with
  | finish a =>
    cases run
    exact among
  | request r next ih =>
    obtain ⟨answer, e₁, ran, rest⟩ := Run.bind_eq_some_iff.1 run
    exact ih answer (among.handled ran) rest
  | inspect next ih =>
    rw [runProgram, Run.get_bind_apply] at run
    exact ih _ _ among run
  | update f next ih =>
    rw [runProgram, Run.modify_bind_apply] at run
    have still : AmongRules { e with foreign := f e.foreign } := ⟨among.listeners, among.devices⟩
    exact ih still run
  | remark label result next ih =>
    rw [runProgram, record_bind_apply] at run
    have still : AmongRules (e.note (.remarked label result)) := ⟨among.listeners, among.devices⟩
    exact ih still run

theorem AmongRules.performed {e e' : Engine σ} (among : AmongRules e) {depth : Nat} {action : Ref}
    {values : List Value} {outcome : Outcome Unit}
    (run : perform (handle depth) action values e = some (outcome, e')) : AmongRules e' := by
  rw [perform, record_bind_apply] at run
  obtain ⟨_, e₁, acted, finish⟩ := Run.bind_eq_some_iff.1 run
  cases finish
  have called : AmongRules (e.note (.called action values)) := ⟨among.listeners, among.devices⟩
  have after : AmongRules e₁ := by
    rcases act_cases called acted with ⟨aside, _⟩ | ⟨_, _, _, _, _, set, _⟩
    · exact called.of_framed (.of_aside aside)
    · exact called.of_framed ((handle_follows depth).setGlobal called set).framed
  exact ⟨after.listeners, after.devices⟩

theorem Hosted.among {e : Engine σ} (hosted : Hosted e) : AmongRules e := by
  induction hosted with
  | create config foreign => exact .create config foreign
  | register _ quiet registered among =>
    unfold Engine.register at registered
    split at registered
    · cases registered
    · cases registered
      refine ⟨among.listeners, fun device member => ?_⟩
      rcases List.mem_append.1 member with old | new
      · exact among.devices device old
      · cases List.mem_singleton.1 new
        exact quiet
  | listen rule _ among => exact among.addListener rule
  | program _ ran among => exact among.programmed ran
  | read _ ran among =>
    cases ran
    exact ⟨among.listeners, among.devices⟩
  | perform _ ran among => exact among.performed ran

/-! ## Sessions without devices -/

theorem Hosted.handled {e e' : Engine σ} (hosted : Hosted e) {depth : Nat} {request : Request}
    {result : Except ScriptError Unit} (run : handle depth request e = some (result, e')) :
    Hosted e' := by
  refine @Hosted.program _ _ _ _ depth (Program.ask request) result hosted ?_
  rw [Program.ask, runProgram, Run.bind_eq_some_iff]
  exact ⟨result, e', run, rfl⟩

theorem Hosted.ticked {e e' : Engine σ} (hosted : Hosted e) {depth : Nat} {ids : List ListenerId}
    {count : Nat} (run : Book.tick.go (handle depth) ids e = some (count, e')) : Hosted e' := by
  induction ids generalizing e count with
  | nil =>
    cases run
    exact hosted
  | cons id ids ih =>
    rw [Book.tick.go] at run
    obtain ⟨result, e₁, checked, rest⟩ := Run.bind_eq_some_iff.1 run
    have served : handle (depth + 1) (.check id) e = some (result, e₁) := checked
    have next := hosted.handled served
    cases result with
    | ok _ => exact ih next rest
    | error _ =>
      obtain ⟨_, _, rest, finish⟩ := Run.bind_eq_some_iff.1 rest
      cases finish
      exact ih next rest

theorem Hosted.command {e e' : Engine σ} (hosted : Hosted e) {depth : Nat} {command : Command}
    {reply : Reply} (run : command.run depth e = some (reply, e')) : Hosted e' := by
  cases command <;> obtain ⟨_, _, ran, finish⟩ := Run.bind_eq_some_iff.1 run <;> cases finish
  case tick => exact hosted.ticked ran
  all_goals exact hosted.handled ran

theorem Reached.hosted {accepted : Reply → Prop} {e : Engine σ} (reached : Reached accepted e) :
    Hosted e := by
  induction reached with
  | create config foreign => exact .create config foreign
  | compile _ _ hosted | build _ _ hosted => exact .listen _ hosted
  | command _ run _ hosted => exact hosted.command run

end Engine

end SignalRules
