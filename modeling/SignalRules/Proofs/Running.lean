import SignalRules.Book
import SignalRules.Proofs.Listeners

/-! # Relations that runs keep

A run of an engine is made of few kinds of change: entries in the journal, changes that the
dispatcher has no part in, and callbacks, which nest. A reflexive and transitive relation that holds
across each of these holds across every run, whatever foreign listeners and devices do in it.
-/

namespace SignalRules

theorem Except.bind_eq_ok {ε α β : Type} {x : Except ε α} {f : α → Except ε β} {b : β}
    (bound : x >>= f = .ok b) : ∃ a, x = .ok a ∧ f a = .ok b := by
  cases x with
  | error _ => cases bound
  | ok a => exact ⟨a, rfl, bound⟩

theorem Except.map_eq_ok {ε α β : Type} {x : Except ε α} {f : α → β} {b : β}
    (mapped : x.map f = .ok b) : ∃ a, x = .ok a ∧ f a = b := by
  cases x with
  | error _ => cases mapped
  | ok a =>
    cases mapped
    exact ⟨a, rfl, rfl⟩

namespace Run

variable {σ α β : Type}

@[simp] theorem pure_apply (a : α) (e : Engine σ) : (pure a : Run σ α) e = some (a, e) := rfl

@[simp] theorem get_bind_apply (f : Engine σ → Run σ β) (e : Engine σ) :
    (get >>= f) e = f e e := rfl

@[simp] theorem modify_bind_apply (g : Engine σ → Engine σ) (f : Unit → Run σ β) (e : Engine σ) :
    ((modify g : Run σ Unit) >>= f) e = f () (g e) := rfl

theorem bind_apply (x : Run σ α) (f : α → Run σ β) (e : Engine σ) :
    (x >>= f) e = (x e).bind fun p => f p.1 p.2 := rfl

theorem bind_eq_some_iff {x : Run σ α} {f : α → Run σ β} {e e' : Engine σ} {b : β} :
    (x >>= f) e = some (b, e') ↔ ∃ a e₁, x e = some (a, e₁) ∧ f a e₁ = some (b, e') := by
  rw [bind_apply, Option.bind_eq_some_iff]
  constructor
  · rintro ⟨⟨a, e₁⟩, first, rest⟩
    exact ⟨a, e₁, first, rest⟩
  · rintro ⟨a, e₁, first, rest⟩
    exact ⟨(a, e₁), first, rest⟩

end Run

namespace Engine

variable {σ α β : Type}

@[simp] theorem record_bind_apply (event : Event) (f : Unit → Run σ β) (e : Engine σ) :
    (record event >>= f) e = f () (e.note event) := rfl

/-- Across the computation, if it has a result, the relation holds. -/
def Across (R : Engine σ → Engine σ → Prop) (run : Run σ α) : Prop :=
  ∀ e a e', run e = some (a, e') → R e e'

/-! ## Callbacks

What one callback does to the engine, apart from what its listener does. -/

/-- The engine after a callback was not taken up. -/
def refuse (e : Engine σ) (callback : Callback) (error : DispatchError) : Engine σ :=
  { e with dispatcher := (e.dispatcher.enter callback).1 }.note (.refused callback error)

/-- The engine when the listener of a callback is called. -/
def takeUp (e : Engine σ) (callback : Callback) : Engine σ :=
  { e with dispatcher := (e.dispatcher.enter callback).1 }.note
    (.entered callback (e.dispatcher.enter callback).1.pending)

/-- The engine after the listener of a callback has returned. -/
def leave (e : Engine σ) (callback : Callback) (result : Except ScriptError Unit) : Engine σ :=
  { e with dispatcher := e.dispatcher.leave callback result }.note
    (.left callback result (e.dispatcher.leave callback result).pending)

/-- A callback is refused, or its listener is called in between. -/
theorem schedule_cases {handler : Handler σ} {callback : Callback} {e e' : Engine σ}
    {result : Except ScriptError Unit}
    (run : schedule handler callback e = some (result, e')) :
    (∃ error, (e.dispatcher.enter callback).2 = .error error ∧
      result = .error (.dispatch error) ∧ e' = e.refuse callback error) ∨
    ((e.dispatcher.enter callback).2 = .ok () ∧
      ∃ e₁, respond handler callback (e.takeUp callback) = some (result, e₁) ∧
        e' = e₁.leave callback result) := by
  simp only [schedule, Run.get_bind_apply, Run.modify_bind_apply] at run
  cases verdict : (e.dispatcher.enter callback).2 with
  | error error =>
    simp only [verdict, record_bind_apply, Run.pure_apply, Option.some.injEq,
      Prod.mk.injEq] at run
    exact .inl ⟨error, rfl, run.1.symm, run.2.symm⟩
  | ok _ =>
    simp only [verdict, record_bind_apply] at run
    obtain ⟨answer, e₁, called, run⟩ := Run.bind_eq_some_iff.1 run
    simp only [Run.get_bind_apply, Run.modify_bind_apply, record_bind_apply, Run.pure_apply,
      Option.some.injEq, Prod.mk.injEq] at run
    obtain ⟨rfl, rfl⟩ := run
    exact .inr ⟨rfl, e₁, called, rfl⟩

/-! ## Closure

What has to be said of a relation, and what follows for every computation of the engine. -/

end Engine

/-- The dispatcher has no part in what the entry tells. -/
def Event.isApart : Event → Bool
  | .entered _ _ => false
  | .left _ _ _ => false
  | .refused _ _ => false
  | _ => true

namespace Engine

/-- The dispatcher is left alone, and so are what the journal says of it and what rules are made
of. -/
structure Apart (e e' : Engine σ) : Prop where
  dispatcher : e'.dispatcher = e.dispatcher
  journal : ∃ events, e'.journal = e.journal ++ events ∧ ∀ event ∈ events, event.isApart
  rules : Keeps e e'

/-- A relation that holds across the parts of which runs are made. -/
structure Closed (R : Engine σ → Engine σ → Prop) : Prop where
  refl : ∀ e, R e e
  trans : ∀ {a b c}, R a b → R b c → R a c
  apart : ∀ {a b}, Apart a b → R a b
  refused : ∀ {e callback error}, (e.dispatcher.enter callback).2 = .error error →
    R e (e.refuse callback error)
  taken : ∀ {e callback result e₁}, (e.dispatcher.enter callback).2 = .ok () →
    R (e.takeUp callback) e₁ → R e (e₁.leave callback result)

theorem Apart.of_same {e e' : Engine σ} (dispatcher : e'.dispatcher = e.dispatcher)
    (journal : e'.journal = e.journal) (listeners : e'.listeners = e.listeners) : Apart e e' :=
  ⟨dispatcher, ⟨[], by simp [journal], by simp⟩, .of_listeners listeners⟩

theorem Apart.note {event : Event} (apart : event.isApart) (e : Engine σ) :
    Apart e (e.note event) :=
  ⟨rfl, ⟨[event], rfl, by simpa using apart⟩, .of_listeners rfl⟩

theorem Apart.modifyRule {f : Rule → Rule} (parts : ∀ rule, (f rule).parts = rule.parts)
    (e : Engine σ) (id : ListenerId) : Apart e (e.modifyRule id f) := by
  have rules := Keeps.modifyRule parts e id
  rw [modifyRule_eq] at rules ⊢
  exact ⟨rfl, ⟨[], by simp, by simp⟩, rules⟩

theorem Apart.addListener (e : Engine σ) (listener : Listener σ) :
    Apart e (e.addListener listener).2 :=
  ⟨rfl, ⟨[], by simp [Engine.addListener], by simp⟩, .addListener e listener⟩

namespace Closed

variable {R : Engine σ → Engine σ → Prop} (closed : Closed R)

include closed

theorem pure (a : α) : Across R (pure a : Run σ α) := by
  rintro e a e' ⟨⟩
  exact closed.refl e

theorem bind {x : Run σ α} {f : α → Run σ β} (first : Across R x)
    (rest : ∀ a, Across R (f a)) : Across R (x >>= f) := by
  intro e b e' run
  obtain ⟨a, e₁, ran, run⟩ := Run.bind_eq_some_iff.1 run
  exact closed.trans (first e a e₁ ran) (rest a e₁ b e' run)

theorem get : Across R (MonadState.get : Run σ (Engine σ)) := by
  rintro e a e' ⟨⟩
  exact closed.refl e

theorem modify {f : Engine σ → Engine σ} (apart : ∀ e, Apart e (f e)) :
    Across R (modify f : Run σ Unit) := by
  rintro e _ e' ⟨⟩
  exact closed.apart (apart e)

theorem record {event : Event} (apart : event.isApart) :
    Across R (Engine.record event : Run σ Unit) :=
  closed.modify fun e => .note apart e

theorem forEach {f : α → Run σ (Except ScriptError Unit)} (each : ∀ a, Across R (f a)) :
    ∀ as, Across R (forEach f as)
  | [] => closed.pure _
  | a :: as => closed.bind (each a) fun
    | .ok _ => forEach each as
    | .error _ => closed.pure _

theorem forM {f : α → Run σ PUnit} (each : ∀ a, Across R (f a)) :
    ∀ as : List α, Across R (as.forM f)
  | [] => closed.pure _
  | a :: as => closed.bind (each a) fun _ => forM each as

theorem changeRule {f : Rule → Rule} (parts : ∀ rule, (f rule).parts = rule.parts)
    (id : ListenerId) : Across R (changeRule (σ := σ) id f) :=
  closed.modify fun e => .modifyRule parts e id

/-! ### Reading and evaluating -/

theorem read (signal : Ref) : Across R (read (σ := σ) signal) :=
  closed.bind closed.get fun _ =>
    closed.bind (closed.modify fun _ => .of_same rfl rfl rfl) fun _ =>
      closed.bind (closed.record rfl) fun _ => closed.pure _

mutual

theorem evaluate : ∀ expr : Expr, Across R (expr.evaluate (Engine.read (σ := σ)))
  | .constant _ => by
    rw [Expr.evaluate]
    exact closed.pure _
  | .signal binding => by
    rw [Expr.evaluate]
    exact closed.bind (closed.read binding.ref) fun _ => closed.pure _
  | .operator _ operands => by
    rw [Expr.evaluate]
    exact closed.bind (evaluateAll operands) fun _ => closed.pure _
  | .action _ _ _ => by
    rw [Expr.evaluate]
    exact closed.pure _

theorem evaluateAll : ∀ exprs : List Expr, Across R (Expr.evaluateAll (Engine.read (σ := σ)) exprs)
  | [] => by
    rw [Expr.evaluateAll]
    exact closed.pure _
  | expr :: exprs => by
    rw [Expr.evaluateAll]
    refine closed.bind (evaluate expr) fun outcome => ?_
    cases outcome with
    | ready _ => exact closed.bind (evaluateAll exprs) fun _ => closed.pure _
    | failed _ => exact closed.pure _
    | interrupted _ =>
      refine closed.bind (evaluateAll exprs) fun outcome => ?_
      cases outcome <;> exact closed.pure _

end

/-! ### What a handler is used for -/

variable {handler : Handler σ} (keeps : ∀ request, Across R (handler request))

include keeps

theorem runProgram (program : Program σ α) : Across R (runProgram handler program) := by
  induction program with
  | finish a => exact closed.pure a
  | request r next ih => exact closed.bind (keeps r) ih
  | inspect next ih => exact closed.bind closed.get fun e => ih e.foreign e.dispatcher.pending
  | update f next ih => exact closed.bind (closed.modify fun _ => .of_same rfl rfl rfl) fun _ => ih
  | remark label result next ih => exact closed.bind (closed.record rfl) fun _ => ih

theorem announce (signal : Ref) : Across R (announce handler signal) :=
  closed.bind closed.get fun _ => closed.forEach (fun _ => keeps _) _

theorem announceEverywhere (signal : String) : Across R (announceEverywhere handler signal) :=
  closed.bind closed.get fun _ => closed.forEach (fun _ => closed.announce keeps _) _

theorem setGlobal (name : String) (value : Value) : Across R (setGlobal handler name value) := by
  refine closed.bind closed.get fun _ => closed.bind (closed.modify fun _ => .of_same rfl rfl rfl) ?_
  intro _
  split
  · exact closed.pure _
  · exact closed.announceEverywhere keeps _

theorem advanceTicker : Across R (advanceTicker handler) :=
  closed.bind (closed.modify fun _ => .of_same rfl rfl rfl) fun _ => closed.announceEverywhere keeps _

theorem act (action : Ref) (values : List Value) : Across R (act handler action values) := by
  refine closed.bind closed.get fun e => ?_
  split
  · exact closed.pure _
  · split
    · split
      · split
        · exact closed.bind (closed.setGlobal keeps _ _) fun _ => closed.pure _
        · exact closed.pure _
      · exact closed.pure _
    · exact closed.pure _
  · split
    · split
      · split
        · exact closed.bind (closed.record rfl) fun _ => closed.pure _
        · exact closed.pure _
      · exact closed.pure _
    · exact closed.pure _
  · exact closed.runProgram keeps _

theorem perform (action : Ref) (values : List Value) :
    Across R (perform handler action values) :=
  closed.bind (closed.record rfl) fun _ =>
    closed.bind (closed.act keeps action values) fun _ =>
      closed.bind (closed.record rfl) fun _ => closed.pure _

theorem performCall (call : Call) : Across R (performCall handler call) := by
  refine closed.bind (closed.bind (closed.evaluateAll call.args) fun _ => closed.pure _) ?_
  intro outcome
  cases outcome with
  | ready values => exact closed.bind (closed.perform keeps _ values) fun _ => closed.pure _
  | interrupted _ => exact closed.pure _
  | failed _ => exact closed.pure _

omit keeps in
theorem failRule (id : ListenerId) (error : ScriptError) :
    Across R (failRule (σ := σ) id error) :=
  closed.bind (closed.changeRule (fun _ => by rfl) id) fun _ => closed.pure _

theorem fire (id : ListenerId) (call : Call) : Across R (fire handler id call) := by
  refine closed.bind closed.get fun _ => ?_
  refine closed.bind (closed.performCall keeps call) fun outcome => ?_
  refine closed.bind (closed.record rfl) fun _ => ?_
  split
  · exact closed.pure _
  · exact closed.bind (closed.changeRule (fun _ => by rfl) id) fun _ => closed.pure _
  · exact closed.bind (closed.changeRule (fun _ => by rfl) id) fun _ => closed.pure _
  · refine closed.bind closed.get fun _ => ?_
    split
    · exact closed.pure _
    · exact closed.failRule id _

theorem check (id : ListenerId) : Across R (check handler id) := by
  refine closed.bind closed.get fun e => ?_
  split
  · exact closed.pure _
  · split
    · exact closed.pure _
    · refine closed.bind (closed.evaluate _) fun outcome => ?_
      split
      · exact closed.pure _
      · exact closed.failRule id _
      · split
        · exact closed.failRule id _
        · refine closed.bind (closed.changeRule (fun _ => by rfl) id) fun _ => ?_
          split
          · exact closed.fire keeps id _
          · exact closed.pure _

/-! ### Installations and subscriptions -/

omit keeps in
theorem install (owner : Option ListenerId) (action : Ref) :
    Across R (install (σ := σ) owner action) := by
  refine closed.bind closed.get fun e => ?_
  split
  · exact closed.pure _
  · refine closed.bind closed.get fun _ => closed.bind (closed.modify fun _ => .of_same rfl rfl rfl) ?_
    exact fun _ => closed.bind (closed.record rfl) fun _ => closed.pure _
  · exact closed.bind (closed.record rfl) fun _ => closed.pure _

omit keeps in
theorem uninstall (owner : Option ListenerId) (action : Ref) :
    Across R (uninstall (σ := σ) owner action) := by
  refine closed.bind closed.get fun e => ?_
  split
  · exact closed.pure _
  · exact closed.bind (closed.modify fun _ => .of_same rfl rfl rfl) fun _ => closed.record rfl
  · exact closed.record rfl

omit keeps in
theorem subscribe (signal : Ref) (listener : ListenerId) :
    Across R (subscribe (σ := σ) signal listener) := by
  refine closed.bind closed.get fun e => ?_
  split
  · exact closed.pure _
  · exact closed.bind (closed.modify fun _ => .of_same rfl rfl rfl) fun _ => closed.pure _

omit keeps in
theorem unsubscribe (signal : Ref) (listener : ListenerId) :
    Across R (unsubscribe (σ := σ) signal listener) :=
  closed.modify fun _ => .of_same rfl rfl rfl

omit keeps in
theorem detach (id : ListenerId) (rule : Rule) : Across R (detach (σ := σ) id rule) :=
  closed.bind (closed.forM (fun _ => closed.unsubscribe _ _) _) fun _ => closed.uninstall _ _

theorem activate (id : ListenerId) : Across R (activate handler id) := by
  refine closed.bind closed.get fun e => ?_
  split
  · exact closed.pure _
  · rename_i rule _
    split
    · exact closed.pure _
    · refine closed.bind (closed.install _ _) fun installed => ?_
      split
      · exact closed.pure _
      · refine closed.bind (closed.forEach (fun _ => closed.subscribe _ _) _) fun subscribed => ?_
        split
        · exact closed.bind (closed.detach id rule) fun _ => closed.pure _
        · exact closed.bind (closed.changeRule (fun _ => by rfl) id) fun _ => closed.check keeps id

omit keeps in
theorem deactivate (id : ListenerId) : Across R (deactivate (σ := σ) id) := by
  refine closed.bind closed.get fun e => ?_
  split
  · exact closed.pure _
  · refine closed.bind (closed.detach id _) fun _ => closed.changeRule (fun rule => ?_) id
    split <;> rfl

/-! ### Requests -/

theorem respond (callback : Callback) : Across R (respond handler callback) := by
  refine closed.bind closed.get fun e => ?_
  split
  · exact closed.pure _
  · exact closed.check keeps _
  · exact closed.runProgram keeps _

theorem schedule (callback : Callback) : Across R (schedule handler callback) := by
  intro e result e' run
  rcases schedule_cases run with ⟨error, refused, rfl, rfl⟩ | ⟨taken, e₁, responded, rfl⟩
  · exact closed.refused refused
  · exact closed.taken taken (closed.respond keeps callback _ _ _ responded)

theorem serve (request : Request) : Across R (serve handler request) := by
  cases request with
  | schedule callback => exact closed.schedule keeps callback
  | announce signal => exact closed.announce keeps signal
  | set name value =>
    rw [Engine.serve]
    split
    · split
      · exact closed.setGlobal keeps name value
      · exact closed.pure _
    · exact closed.pure _
  | advance => exact closed.advanceTicker keeps
  | subscribe signal listener => exact closed.subscribe signal listener
  | unsubscribe signal listener =>
    exact closed.bind (closed.unsubscribe signal listener) fun _ => closed.pure _
  | activate rule => exact closed.activate keeps rule
  | deactivate rule => exact closed.bind (closed.deactivate rule) fun _ => closed.pure _
  | check rule => exact closed.check keeps rule
  | install action => exact closed.install none action
  | uninstall action => exact closed.bind (closed.uninstall none action) fun _ => closed.pure _

omit keeps in
/-- What holds across the parts of runs holds across every request. -/
theorem handle : ∀ depth request, Across R (handle (σ := σ) depth request)
  | 0, _ => by
    rintro e a e' ⟨⟩
  | depth + 1, request => closed.serve (handle depth) request

omit keeps in
theorem tick (depth : Nat) : ∀ ids, Across R (Book.tick.go (σ := σ) (Engine.handle depth) ids)
  | [] => closed.pure _
  | id :: ids => closed.bind (closed.check (closed.handle depth) id) fun
    | .ok _ => tick depth ids
    | .error _ => closed.bind (tick depth ids) fun _ => closed.pure _

end Closed

theorem keeps_closed : Closed (Keeps (σ := σ)) where
  refl := .refl
  trans := .trans
  apart apart := apart.rules
  refused _ := .of_listeners rfl
  taken _ inside := (Keeps.of_listeners rfl).trans (inside.trans (.of_listeners rfl))

/-! ## Reachable engines -/

/-- What a host application can bring an engine to. It starts from a fresh one, registers devices
and listeners, and may then run programs of its own, read signals and perform actions. -/
inductive Reachable : Engine σ → Prop where
  | create (config : Config) (foreign : σ) : Reachable (create config foreign)
  | register {e e' : Engine σ} {device : Device σ} :
    Reachable e → e.register device = .ok e' → Reachable e'
  | listen {e : Engine σ} (listener : Listener σ) :
    Reachable e → Reachable (e.addListener listener).2
  | program {e e' : Engine σ} {α : Type} {depth : Nat} {program : Program σ α} {a : α} :
    Reachable e → runProgram (handle depth) program e = some (a, e') → Reachable e'
  | read {e e' : Engine σ} {signal : Ref} {outcome : Outcome Value} :
    Reachable e → read signal e = some (outcome, e') → Reachable e'
  | perform {e e' : Engine σ} {depth : Nat} {action : Ref} {values : List Value}
      {outcome : Outcome Unit} :
    Reachable e → perform (handle depth) action values e = some (outcome, e') → Reachable e'

theorem register_apart {e e' : Engine σ} {device : Device σ}
    (registered : e.register device = .ok e') : Apart e e' := by
  unfold register at registered
  split at registered
  · cases registered
  · cases registered
    exact .of_same rfl rfl rfl

theorem Reachable.related {R : Engine σ → Engine σ → Prop} (closed : Closed R) {e : Engine σ}
    (reachable : Reachable e) :
    ∃ config foreign, R (Engine.create config foreign) e := by
  induction reachable with
  | create config foreign => exact ⟨config, foreign, closed.refl _⟩
  | register _ registered ih =>
    obtain ⟨config, foreign, before⟩ := ih
    exact ⟨config, foreign, closed.trans before (closed.apart (register_apart registered))⟩
  | listen _ _ ih =>
    obtain ⟨config, foreign, before⟩ := ih
    exact ⟨config, foreign, closed.trans before (closed.apart (.addListener _ _))⟩
  | program _ ran ih =>
    obtain ⟨config, foreign, before⟩ := ih
    exact ⟨config, foreign,
      closed.trans before (closed.runProgram (closed.handle _) _ _ _ _ ran)⟩
  | read _ ran ih =>
    obtain ⟨config, foreign, before⟩ := ih
    exact ⟨config, foreign, closed.trans before (closed.read _ _ _ _ ran)⟩
  | perform _ ran ih =>
    obtain ⟨config, foreign, before⟩ := ih
    exact ⟨config, foreign,
      closed.trans before (closed.perform (closed.handle _) _ _ _ _ _ ran)⟩

end Engine

end SignalRules
