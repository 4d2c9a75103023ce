import SignalRules.Proofs.Session

/-! # Runs that end

Requests that nest too deeply are the only reason why a run has no result. So whatever the engine
does by itself ends, and what it does with callbacks ends wherever the callbacks do. A run that has
a result keeps it however deeply requests may nest.
-/

namespace SignalRules

namespace Engine

variable {σ α β : Type}

/-- The computation has a result. -/
def Ends (run : Run σ α) (e : Engine σ) : Prop :=
  ∃ a e', run e = some (a, e')

namespace Ends

theorem pure (a : α) (e : Engine σ) : Ends (pure a : Run σ α) e :=
  ⟨a, e, rfl⟩

theorem modify (f : Engine σ → Engine σ) (e : Engine σ) : Ends (modify f : Run σ Unit) e :=
  ⟨(), f e, rfl⟩

theorem record (event : Event) (e : Engine σ) : Ends (Engine.record event : Run σ Unit) e :=
  ⟨(), e.note event, rfl⟩

theorem after {x : Run σ α} {f : α → Run σ β} {a : α} {e e₁ : Engine σ}
    (ran : x e = some (a, e₁)) (rest : Ends (f a) e₁) : Ends (x >>= f) e := by
  obtain ⟨b, e', finished⟩ := rest
  exact ⟨b, e', Run.bind_eq_some_iff.2 ⟨a, e₁, ran, finished⟩⟩

theorem bind {x : Run σ α} {f : α → Run σ β} {e : Engine σ} (first : Ends x e)
    (rest : ∀ a e', x e = some (a, e') → Ends (f a) e') : Ends (x >>= f) e := by
  obtain ⟨a, e₁, ran⟩ := first
  exact after ran (rest a e₁ ran)

theorem get {f : Engine σ → Run σ β} {e : Engine σ} (rest : Ends (f e) e) :
    Ends (MonadState.get >>= f) e :=
  rest

/-! ### What is done without callbacks -/

theorem failRule (id : ListenerId) (error : ScriptError) (e : Engine σ) :
    Ends (Engine.failRule id error) e :=
  after rfl (pure _ _)

theorem install (owner : Option ListenerId) (action : Ref) (e : Engine σ) :
    Ends (Engine.install owner action) e := by
  refine get ?_
  split
  · exact pure _ _
  · exact get (after rfl (after rfl (pure _ _)))
  · exact after rfl (pure _ _)

theorem uninstall (owner : Option ListenerId) (action : Ref) (e : Engine σ) :
    Ends (Engine.uninstall owner action) e := by
  refine get ?_
  split
  · exact pure _ _
  · exact after rfl (record _ _)
  · exact record _ _

theorem subscribe (signal : Ref) (listener : ListenerId) (e : Engine σ) :
    Ends (Engine.subscribe signal listener) e := by
  refine get ?_
  split
  · exact pure _ _
  · exact after rfl (pure _ _)

theorem forM {f : α → Run σ PUnit} (each : ∀ a e, Ends (f a) e) :
    ∀ (as : List α) (e : Engine σ), Ends (as.forM f) e
  | [], e => pure _ e
  | a :: as, e => (each a e).bind fun _ e' _ => forM each as e'

theorem subscribeAll (signals : List Ref) (listener : ListenerId) (e : Engine σ) :
    Ends (forEach (fun signal => Engine.subscribe signal listener) signals) e := by
  induction signals generalizing e with
  | nil => exact pure _ e
  | cons signal signals ih =>
    refine (subscribe signal listener e).bind fun result e₁ _ => ?_
    cases result with
    | ok _ => exact ih e₁
    | error _ => exact pure _ e₁

theorem detach (id : ListenerId) (rule : Rule) (e : Engine σ) : Ends (Engine.detach id rule) e :=
  (forM (fun _ e => modify _ e) _ e).bind fun _ e' _ => uninstall _ _ e'

theorem deactivate (id : ListenerId) (e : Engine σ) : Ends (Engine.deactivate id) e := by
  refine get ?_
  split
  · exact pure _ _
  · exact (detach id _ e).bind fun _ e' _ => modify _ e'

end Ends

/-! ## Callbacks that are carried out -/

/-- From an engine that is good the computation ends, and if it succeeds the engine is good
again. -/
def Sound (Good : Engine σ → Prop) (run : Run σ (Except ScriptError Unit)) : Prop :=
  ∀ e, Good e → Ends run e ∧ ∀ e', run e = some (.ok (), e') → Good e'

theorem Sound.forEach {Good : Engine σ → Prop} {f : α → Run σ (Except ScriptError Unit)}
    (each : ∀ a, Sound Good (f a)) (as : List α) : Sound Good (forEach f as) := by
  induction as with
  | nil =>
    intro e good
    refine ⟨.pure _ e, ?_⟩
    rintro e' ⟨⟩
    exact good
  | cons a as ih =>
    intro e good
    obtain ⟨ends, again⟩ := each a e good
    constructor
    · refine ends.bind fun result e₁ ran => ?_
      cases result with
      | error _ => exact .pure _ e₁
      | ok _ => exact (ih e₁ (again e₁ ran)).1
    · intro e' run
      obtain ⟨result, e₁, ran, rest⟩ := Run.bind_eq_some_iff.1 run
      cases result with
      | error _ => cases rest
      | ok _ => exact (ih e₁ (again e₁ ran)).2 e' rest

/-- To a good engine the handler does all that an action or a change of a signal may call for. -/
structure Serves (handler : Handler σ) (Good : Engine σ → Prop) : Prop where
  schedule : ∀ callback, Sound Good (handler (.schedule callback))
  device : ∀ {e : Engine σ} {device : Device σ}, Good e → device ∈ e.devices →
    ∀ action values, Ends (runProgram handler (device.perform action values)) e
  /-- An engine is good for its dispatcher, its devices and its listeners. -/
  same : ∀ {e e' : Engine σ}, Good e → e'.dispatcher = e.dispatcher → e'.devices = e.devices →
    e'.listeners = e.listeners → Good e'
  modifyRule : ∀ {e : Engine σ}, Good e → ∀ id f, Good (e.modifyRule id f)

namespace Serves

variable {handler : Handler σ} {Good : Engine σ → Prop} (serves : Serves handler Good)

include serves

theorem aside {e e' : Engine σ} (good : Good e) (aside : Aside e e') : Good e' := by
  obtain ⟨_, _, _, rfl⟩ := aside
  exact serves.same good rfl rfl rfl

theorem rewired {id : ListenerId} {e e' : Engine σ} (good : Good e) (rewired : Rewired id e e') :
    Good e' := by
  obtain ⟨_, _, _, _, _, rfl⟩ := rewired
  exact serves.same good rfl rfl rfl

theorem announce (signal : Ref) : Sound Good (announce handler signal) :=
  fun e good => Sound.forEach (fun _ => serves.schedule _) (e.subscriptions.listeners signal) e good

theorem announceEverywhere (signal : String) : Sound Good (announceEverywhere handler signal) :=
  fun e good => Sound.forEach (fun _ => serves.announce _) (e.subscriptions.hosts signal) e good

variable {e : Engine σ} (good : Good e)

include good

theorem setGlobal (name : String) (value : Value) : Ends (setGlobal handler name value) e := by
  rw [Engine.setGlobal]
  have written : Good { e with globals := e.globals.put name value } :=
    serves.same good rfl rfl rfl
  refine .get (.after rfl ?_)
  split
  · exact .pure _ _
  · exact (serves.announceEverywhere _ _ written).1

theorem advanceTicker : Ends (advanceTicker handler) e := by
  have advanced : Good { e with ticker := e.ticker.advance } := serves.same good rfl rfl rfl
  exact .after rfl (serves.announceEverywhere _ _ advanced).1

theorem act (action : Ref) (values : List Value) : Ends (act handler action values) e := by
  refine .get ?_
  split
  · exact .pure _ e
  · split
    · split
      · split
        · exact (serves.setGlobal good _ _).bind fun _ _ _ => .pure _ _
        · exact .pure _ e
      · exact .pure _ e
    · exact .pure _ e
  · split
    · split
      · split
        · exact .after rfl (.pure _ _)
        · exact .pure _ e
      · exact .pure _ e
    · exact .pure _ e
  · rename_i known
    exact serves.device good (device_mem known) action values

theorem perform (action : Ref) (values : List Value) : Ends (perform handler action values) e := by
  refine .after rfl ?_
  refine (serves.act (serves.aside good (.note rfl e)) action values).bind fun _ e₂ _ => ?_
  exact .after rfl (.pure _ _)

theorem performCall (call : Call) : Ends (performCall handler call) e := by
  obtain ⟨outcome, e₁, ran, aside, _⟩ := arguments_run call e
  refine .after ran ?_
  cases outcome with
  | interrupted _ | failed _ => exact .pure _ _
  | ready values =>
    exact (serves.perform (serves.aside good aside) _ values).bind fun _ _ _ => .pure _ _

theorem fire (id : ListenerId) (call : Call) : Ends (fire handler id call) e := by
  refine .get ((serves.performCall good call).bind fun outcome e₁ _ => ?_)
  refine .after rfl ?_
  split
  · exact .pure _ _
  · exact .after rfl (.pure _ _)
  · exact .after rfl (.pure _ _)
  · refine .get ?_
    split
    · exact .pure _ _
    · exact .failRule id _ _

theorem check (id : ListenerId) : Ends (check handler id) e := by
  refine .get ?_
  split
  · exact .pure _ e
  · rename_i rule _
    split
    · exact .pure _ e
    · obtain ⟨outcome, e₁, ran, aside, _⟩ := evaluate_run rule.condition e
      refine .after ran ?_
      split
      · exact .pure _ _
      · exact .failRule id _ _
      · split
        · exact .failRule id _ _
        · rename_i holds _
          refine .after rfl ?_
          split
          · exact serves.fire (serves.modifyRule (serves.aside good aside) _ _) id rule.action
          · exact .pure _ _

theorem activate (id : ListenerId) : Ends (activate handler id) e := by
  refine .get ?_
  split
  · exact .pure _ e
  · rename_i rule _
    split
    · exact .pure _ e
    · refine (Ends.install _ _ e).bind fun installed e₁ ran => ?_
      have first : Rewired id e e₁ := .install ran
      split
      · exact .pure _ e₁
      · refine (Ends.subscribeAll _ id e₁).bind fun subscribed e₂ ran => ?_
        split
        · exact (Ends.detach id rule e₂).bind fun _ _ _ => .pure _ _
        · refine .after rfl ?_
          have rewired := first.trans (Rewired.subscribeAll ran).1
          exact serves.check (serves.modifyRule (serves.rewired good rewired) id _) id

end Serves

/-! ## Requests -/

/-- To carry out a callback ends if its listener does. -/
theorem Ends.schedule {handler : Handler σ} {callback : Callback} {e : Engine σ}
    (responded : (e.dispatcher.enter callback).2 = .ok () →
      Ends (respond handler callback) (e.takeUp callback)) :
    Ends (schedule handler callback) e := by
  cases verdict : (e.dispatcher.enter callback).2 with
  | error error =>
    refine ⟨.error (.dispatch error), e.refuse callback error, ?_⟩
    simp only [Engine.schedule, Run.get_bind_apply, Run.modify_bind_apply, verdict,
      record_bind_apply]
    rfl
  | ok _ =>
    obtain ⟨result, e₁, ran⟩ := responded verdict
    refine ⟨result, e₁.leave callback result, ?_⟩
    simp only [Engine.schedule, Run.get_bind_apply, Run.modify_bind_apply, verdict,
      record_bind_apply]
    exact Run.bind_eq_some_iff.2 ⟨result, e₁, ran, rfl⟩

section Requests

variable {handler : Handler σ} (ends : ∀ request e, Ends (handler request) e)

include ends

/-- A program makes requests, one after the other, until it ends. -/
theorem Ends.runProgram (program : Program σ α) (e : Engine σ) :
    Ends (runProgram handler program) e := by
  induction program generalizing e with
  | finish a => exact pure a e
  | request r next ih => exact (ends r e).bind fun result e₁ _ => ih result e₁
  | inspect next ih => exact get (ih e.foreign e.dispatcher.pending e)
  | update f next ih => exact after rfl (ih _)
  | remark label result next ih => exact after rfl (ih _)

theorem Serves.of_ends : Serves handler fun _ => True where
  schedule _ e _ := ⟨ends _ e, fun _ _ => trivial⟩
  device _ _ _ _ := Ends.runProgram ends _ _
  same _ _ _ _ := trivial
  modifyRule _ _ _ := trivial

theorem Ends.respond (callback : Callback) (e : Engine σ) :
    Ends (respond handler callback) e := by
  refine get ?_
  split
  · exact pure _ e
  · exact (Serves.of_ends ends).check trivial _
  · exact Ends.runProgram ends _ e

/-- A request ends wherever those end that come up in the course of it. -/
theorem Ends.serve (request : Request) (e : Engine σ) : Ends (serve handler request) e := by
  have serves := Serves.of_ends ends
  cases request with
  | schedule callback => exact schedule fun _ => Ends.respond ends callback _
  | announce signal => exact (serves.announce signal e trivial).1
  | set name value =>
    rw [Engine.serve]
    split
    · split
      · exact serves.setGlobal trivial name value
      · exact pure _ e
    · exact pure _ e
  | advance => exact serves.advanceTicker trivial
  | subscribe signal listener => exact subscribe signal listener e
  | unsubscribe signal listener => exact after rfl (pure _ _)
  | activate id => exact serves.activate trivial id
  | deactivate id => exact (deactivate id e).bind fun _ _ _ => pure _ _
  | check id => exact serves.check trivial id
  | install action => exact install none action e
  | uninstall action => exact (uninstall none action e).bind fun _ _ _ => pure _ _

end Requests

/-! ## Deeper runs -/

/-- What results from the first computation results from the second one too. -/
def Refines (x y : Run σ α) : Prop :=
  ∀ e a e', x e = some (a, e') → y e = some (a, e')

namespace Refines

theorem refl (x : Run σ α) : Refines x x :=
  fun _ _ _ => id

theorem bind {x y : Run σ α} {f g : α → Run σ β} (first : Refines x y)
    (rest : ∀ a, Refines (f a) (g a)) : Refines (x >>= f) (y >>= g) := by
  intro e b e' run
  obtain ⟨a, e₁, ran, run⟩ := Run.bind_eq_some_iff.1 run
  exact Run.bind_eq_some_iff.2 ⟨a, e₁, first e a e₁ ran, rest a e₁ b e' run⟩

theorem after (x : Run σ α) {f g : α → Run σ β} (rest : ∀ a, Refines (f a) (g a)) :
    Refines (x >>= f) (x >>= g) :=
  bind (refl x) rest

theorem forEach {f g : α → Run σ (Except ScriptError Unit)} (each : ∀ a, Refines (f a) (g a))
    (as : List α) : Refines (forEach f as) (forEach g as) := by
  induction as with
  | nil => exact refl _
  | cons a as ih =>
    refine bind (each a) fun result => ?_
    cases result with
    | ok _ => exact ih
    | error _ => exact refl _

variable {weak strong : Handler σ} (refines : ∀ request, Refines (weak request) (strong request))

include refines

theorem runProgram (program : Program σ α) :
    Refines (runProgram weak program) (runProgram strong program) := by
  induction program with
  | finish a => exact refl _
  | request r next ih => exact bind (refines r) ih
  | inspect next ih => exact after _ fun e => ih e.foreign e.dispatcher.pending
  | update f next ih => exact after _ fun _ => ih
  | remark label result next ih => exact after _ fun _ => ih

theorem announce (signal : Ref) : Refines (announce weak signal) (announce strong signal) :=
  after _ fun _ => forEach (fun _ => refines _) _

theorem announceEverywhere (signal : String) :
    Refines (announceEverywhere weak signal) (announceEverywhere strong signal) :=
  after _ fun _ => forEach (fun _ => announce refines _) _

theorem setGlobal (name : String) (value : Value) :
    Refines (setGlobal weak name value) (setGlobal strong name value) := by
  refine after _ fun e => after _ fun _ => ?_
  split
  · exact refl _
  · exact announceEverywhere refines _

theorem act (action : Ref) (values : List Value) :
    Refines (act weak action values) (act strong action values) := by
  refine after _ fun e => ?_
  cases e.provider action.name with
  | error _ => exact refl _
  | ok provider =>
    cases provider with
    | diagnostics => exact refl _
    | device device => exact runProgram refines _
    | globals =>
      by_cases isSet : action.name = Globals.setAction
      · simp only [if_pos isSet]
        split
        · split
          · exact bind (setGlobal refines _ _) fun _ => refl _
          · exact refl _
        · exact refl _
      · simp only [if_neg isSet]
        exact refl _

theorem perform (action : Ref) (values : List Value) :
    Refines (perform weak action values) (perform strong action values) :=
  after _ fun _ => bind (act refines action values) fun _ => refl _

theorem performCall (call : Call) : Refines (performCall weak call) (performCall strong call) := by
  refine after _ fun outcome => ?_
  cases outcome with
  | ready values => exact bind (perform refines _ values) fun _ => refl _
  | interrupted _ | failed _ => exact refl _

theorem fire (id : ListenerId) (call : Call) : Refines (fire weak id call) (fire strong id call) :=
  after _ fun _ => bind (performCall refines call) fun _ => refl _

theorem check (id : ListenerId) : Refines (check weak id) (check strong id) := by
  refine after _ fun e => ?_
  split
  · exact refl _
  · split
    · exact refl _
    · refine after _ fun outcome => ?_
      split
      · exact refl _
      · exact refl _
      · split
        · exact refl _
        · refine after _ fun _ => ?_
          split
          · exact fire refines id _
          · exact refl _

theorem activate (id : ListenerId) : Refines (activate weak id) (activate strong id) := by
  refine after _ fun e => ?_
  split
  · exact refl _
  · split
    · exact refl _
    · refine after _ fun installed => ?_
      split
      · exact refl _
      · refine after _ fun subscribed => ?_
        split
        · exact refl _
        · exact after _ fun _ => check refines id

theorem respond (callback : Callback) :
    Refines (respond weak callback) (respond strong callback) := by
  refine after _ fun e => ?_
  split
  · exact refl _
  · exact check refines _
  · exact runProgram refines _

theorem schedule (callback : Callback) :
    Refines (schedule weak callback) (schedule strong callback) := by
  refine after _ fun e => after _ fun _ => ?_
  split
  · exact refl _
  · exact after _ fun _ => bind (respond refines callback) fun _ => refl _

theorem serve (request : Request) : Refines (serve weak request) (serve strong request) := by
  cases request with
  | schedule callback => exact schedule refines callback
  | announce signal => exact announce refines signal
  | set name value =>
    rw [Engine.serve, Engine.serve]
    split
    · split
      · exact setGlobal refines name value
      · exact refl _
    · exact refl _
  | advance => exact after _ fun _ => announceEverywhere refines _
  | activate id => exact activate refines id
  | check id => exact check refines id
  | _ => exact refl _

end Refines

/-- How deeply requests may nest makes no difference where it is enough. -/
theorem Refines.handle {depth deeper : Nat} (le : depth ≤ deeper) (request : Request) :
    Refines (handle (σ := σ) depth request) (handle deeper request) := by
  induction depth generalizing deeper request with
  | zero =>
    rintro e a e' ⟨⟩
  | succ depth ih =>
    obtain ⟨deeper, rfl⟩ : ∃ n, deeper = n + 1 := ⟨deeper - 1, by omega⟩
    exact serve (fun request => ih (by omega) request) request

/-! ## Runs that are cut off -/

/-- Carry out requests as `handle` does, but answer out of hand those that nest more deeply. So a
run that does not end can be followed as far as one likes. -/
def cutOff (answer : Request → Except ScriptError Unit) : Nat → Handler σ
  | 0, request => return answer request
  | depth + 1, request => serve (cutOff answer depth) request

theorem Ends.cutOff (answer : Request → Except ScriptError Unit) (depth : Nat) (request : Request)
    (e : Engine σ) : Ends (cutOff answer depth request) e := by
  induction depth generalizing request e with
  | zero => exact pure _ e
  | succ depth ih => exact Ends.serve ih request e

theorem Closed.cutOff {R : Engine σ → Engine σ → Prop} (closed : Closed R)
    (answer : Request → Except ScriptError Unit) (depth : Nat) (request : Request) :
    Across R (Engine.cutOff answer depth request) := by
  induction depth generalizing request with
  | zero => exact closed.pure _
  | succ depth ih => exact closed.serve ih request

end Engine

end SignalRules
