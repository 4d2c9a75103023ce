import SignalRules.Proofs.AmongRules
import SignalRules.Proofs.Tables

/-! # Bystanders

Foreign listeners and devices may set signals, announce changes, call listeners and subscribe
listeners of their own. As long as they activate and deactivate no rule and subscribe none, nothing
that happens in a run moves a subscription of a rule, and no rule becomes inactive or ceases to be.
-/

namespace SignalRules

/-- The request does not touch how rules are subscribed. It may subscribe the listeners that are set
`apart` for it. -/
def Request.HandsOff (apart : ListenerId → Prop) : Request → Prop
  | .subscribe _ listener => apart listener
  | .unsubscribe _ listener => apart listener
  | .activate _ => False
  | .deactivate _ => False
  | _ => True

/-- All requests of the program are of this kind, whatever it sees and is told. -/
inductive Program.HandsOff {σ α : Type} (apart : ListenerId → Prop) : Program σ α → Prop where
  | finish (a : α) : HandsOff apart (.finish a)
  | request {r : Request} {next : Except ScriptError Unit → Program σ α}
    (handsOff : r.HandsOff apart) (rest : ∀ result, HandsOff apart (next result)) :
    HandsOff apart (.request r next)
  | inspect {next : σ → List Callback → Program σ α}
    (rest : ∀ s pending, HandsOff apart (next s pending)) : HandsOff apart (.inspect next)
  | update {f : σ → σ} {next : Program σ α} (rest : HandsOff apart next) :
    HandsOff apart (.update f next)
  | remark {label : String} {result : Except ScriptError Unit} {next : Program σ α}
    (rest : HandsOff apart next) : HandsOff apart (.remark label result next)

namespace Engine

variable {σ α β : Type} {apart : ListenerId → Prop}

/-- Foreign listeners and devices keep their hands off the rules. -/
structure Tame (apart : ListenerId → Prop) (e : Engine σ) : Prop where
  devices : ∀ device ∈ e.devices, ∀ action values, (device.perform action values).HandsOff apart
  strangers : ∀ {id name respond}, e.listener? id = some (.external name respond) →
    ∀ signal, (respond signal).HandsOff apart

/-- No subscription of a rule has moved, and no rule has become inactive or active again. -/
structure Undisturbed (apart : ListenerId → Prop) (e e' : Engine σ) : Prop where
  config : e'.config = e.config
  devices : e'.devices = e.devices
  proper : e.subscriptions.Proper → e'.subscriptions.Proper
  subscribed : e.subscriptions.Proper → ∀ {id}, ¬ apart id → ∀ signal,
    id ∈ e'.subscriptions.listeners signal ↔ id ∈ e.subscriptions.listeners signal
  rules : ∀ {id rule}, e.rule? id = some rule → ∃ rule', e'.rule? id = some rule' ∧
    rule'.parts = rule.parts ∧ (rule'.state = .inactive ↔ rule.state = .inactive)
  strangers : ∀ {id}, e.rule? id = none → e'.listener? id = e.listener? id

namespace Undisturbed

variable {e e' : Engine σ}

theorem refl (e : Engine σ) : Undisturbed apart e e where
  config := rfl
  devices := rfl
  proper := id
  subscribed _ _ _ _ := Iff.rfl
  rules found := ⟨_, found, rfl, Iff.rfl⟩
  strangers _ := rfl

theorem rule?_none (undisturbed : Undisturbed apart e e') {id : ListenerId}
    (stranger : e.rule? id = none) : e'.rule? id = none := by
  unfold rule? at stranger ⊢
  rwa [undisturbed.strangers stranger]

theorem trans {a b c : Engine σ} (ab : Undisturbed apart a b) (bc : Undisturbed apart b c) :
    Undisturbed apart a c where
  config := bc.config.trans ab.config
  devices := bc.devices.trans ab.devices
  proper proper := bc.proper (ab.proper proper)
  subscribed proper _ ours signal :=
    (bc.subscribed (ab.proper proper) ours signal).trans (ab.subscribed proper ours signal)
  rules found := by
    obtain ⟨_, found, parts, inactive⟩ := ab.rules found
    obtain ⟨rule, found, partsToo, inactiveToo⟩ := bc.rules found
    exact ⟨rule, found, partsToo.trans parts, inactiveToo.trans inactive⟩
  strangers stranger := (bc.strangers (ab.rule?_none stranger)).trans (ab.strangers stranger)

theorem tame (undisturbed : Undisturbed apart e e') (tame : e.Tame apart) : e'.Tame apart where
  devices := undisturbed.devices ▸ tame.devices
  strangers := by
    intro id name respond known
    cases found : e.rule? id with
    | none => exact tame.strangers (undisturbed.strangers found ▸ known)
    | some rule =>
      obtain ⟨_, found', _⟩ := undisturbed.rules found
      rw [listener?_eq_of_rule? found'] at known
      cases known

/-- Who is subscribed has no part in the change, and neither have the listeners. -/
theorem of_same (config : e'.config = e.config) (devices : e'.devices = e.devices)
    (subscriptions : e'.subscriptions = e.subscriptions) (listeners : e'.listeners = e.listeners) :
    Undisturbed apart e e' := by
  have known (id : ListenerId) : e'.listener? id = e.listener? id := by
    rw [listener?, listener?, listeners]
  have found (id : ListenerId) : e'.rule? id = e.rule? id := by
    rw [rule?, rule?, known]
  exact
    { config
      devices
      proper := fun proper => subscriptions ▸ proper
      subscribed := fun _ _ _ _ => subscriptions ▸ Iff.rfl
      rules := fun {id rule} there => ⟨rule, (found id).trans there, rfl, Iff.rfl⟩
      strangers := fun {id} _ => known id }

theorem of_aside (aside : Aside e e') : Undisturbed apart e e' := by
  obtain ⟨_, _, _, rfl⟩ := aside
  exact .of_same rfl rfl rfl rfl

theorem note (undisturbed : Undisturbed apart e e') (event : Event) :
    Undisturbed apart e (e'.note event) :=
  undisturbed.trans (.of_same rfl rfl rfl rfl)

/-- A rule may change if it stays what it is made of, and inactive if it is. -/
theorem modifyRule {id : ListenerId} {rule : Rule} (found : e.rule? id = some rule)
    {f : Rule → Rule} (parts : (f rule).parts = rule.parts)
    (inactive : (f rule).state = .inactive ↔ rule.state = .inactive) :
    Undisturbed apart e (e.modifyRule id f) := by
  refine ⟨?_, devices_modifyRule e id f, ?_, ?_, ?_, ?_⟩
  · rw [modifyRule_eq]
  · rw [subscriptions_modifyRule]
    exact fun proper => proper
  · rw [subscriptions_modifyRule]
    exact fun _ _ _ _ => Iff.rfl
  · intro other old known
    by_cases ne : other = id
    · subst ne
      cases found.symm.trans known
      exact ⟨f rule, rule?_modifyRule_self found f, parts, inactive⟩
    · rw [rule?_modifyRule_of_ne e ne]
      exact ⟨old, known, rfl, Iff.rfl⟩
  · intro other stranger
    have ne : other ≠ id := by
      rintro rfl
      rw [found] at stranger
      cases stranger
    exact listener?_modifyRule_of_ne e ne f

theorem hold {id : ListenerId} {rule : Rule} (found : e.rule? id = some rule) (held : Bool) :
    Undisturbed apart e (e.hold id held) :=
  modifyRule found rfl Iff.rfl

theorem breakDown {id : ListenerId} {rule : Rule} (found : e.rule? id = some rule)
    (running : rule.state ≠ .inactive) (error : ScriptError) :
    Undisturbed apart e (e.breakDown id error) :=
  modifyRule found rfl (iff_of_false nofun running)

/-- A rule takes the outcome of its action. -/
theorem conclude {id : ListenerId} {rule : Rule} (found : e.rule? id = some rule)
    (running : rule.state ≠ .inactive) {before : Nat} {outcome : Outcome Expr.Completion}
    {result : Except ScriptError Unit} (concluded : e.conclude id before outcome = (result, e')) :
    Undisturbed apart e e' := by
  obtain ⟨f, settles, rfl⟩ := settled_of_concluded concluded
  refine modifyRule found ?_ (iff_of_false (settles.running rule running) running)
  obtain ⟨state, held, error, same⟩ := settles.parts rule
  rw [same]
  rfl

theorem refuse (e : Engine σ) (callback : Callback) (error : DispatchError) :
    Undisturbed apart e (e.refuse callback error) :=
  .of_same rfl rfl rfl rfl

theorem takeUp (e : Engine σ) (callback : Callback) : Undisturbed apart e (e.takeUp callback) :=
  .of_same rfl rfl rfl rfl

theorem leave (e : Engine σ) (callback : Callback) (result : Except ScriptError Unit) :
    Undisturbed apart e (e.leave callback result) :=
  .of_same rfl rfl rfl rfl

theorem subscribe (e : Engine σ) (signal : Ref) {listener : ListenerId} (foreign : apart listener) :
    Undisturbed apart e { e with subscriptions := e.subscriptions.add signal listener } :=
  { @Undisturbed.refl σ apart e with
    proper := fun proper => proper.add signal listener
    subscribed := fun _ id ours other => by
      rw [Subscriptions.mem_listeners_add, or_iff_left]
      rintro ⟨-, rfl⟩
      exact ours foreign }

theorem unsubscribe (e : Engine σ) (signal : Ref) {listener : ListenerId}
    (foreign : apart listener) :
    Undisturbed apart e { e with subscriptions := e.subscriptions.remove signal listener } :=
  { @Undisturbed.refl σ apart e with
    proper := fun proper => proper.remove signal listener
    subscribed := fun proper id ours other => by
      rw [proper.mem_listeners_remove, and_iff_left]
      rintro ⟨-, rfl⟩
      exact ours foreign }

end Undisturbed

/-! ## Gentle runs -/

/-- On a tame engine the computation disturbs no subscription of a rule. -/
def Gentle (apart : ListenerId → Prop) (run : Run σ α) : Prop :=
  ∀ e a e', e.Tame apart → run e = some (a, e') → Undisturbed apart e e'

namespace Gentle

theorem pure (a : α) : Gentle apart (pure a : Run σ α) := by
  rintro e _ _ - ⟨⟩
  exact .refl e

theorem bind {x : Run σ α} {f : α → Run σ β} (first : Gentle apart x)
    (rest : ∀ a, Gentle apart (f a)) : Gentle apart (x >>= f) := by
  intro e b e' tame run
  obtain ⟨a, e₁, ran, run⟩ := Run.bind_eq_some_iff.1 run
  have undisturbed := first _ _ _ tame ran
  exact undisturbed.trans (rest a _ _ _ (undisturbed.tame tame) run)

theorem get_bind {f : Engine σ → Run σ β} (rest : ∀ e, Gentle apart (f e)) :
    Gentle apart (get >>= f) := by
  intro e b e' tame run
  rw [Run.get_bind_apply] at run
  exact rest e _ _ _ tame run

theorem modify {f : Engine σ → Engine σ} (each : ∀ e, Undisturbed apart e (f e)) :
    Gentle apart (modify f : Run σ Unit) := by
  rintro e _ _ - ⟨⟩
  exact each e

theorem record (event : Event) : Gentle apart (record event : Run σ Unit) :=
  modify fun e => (Undisturbed.refl e).note event

theorem forEach {f : α → Run σ (Except ScriptError Unit)} (each : ∀ a, Gentle apart (f a)) :
    ∀ as, Gentle apart (forEach f as)
  | [] => pure _
  | a :: as => bind (each a) fun
    | .ok _ => forEach each as
    | .error _ => pure _

variable {handler : Handler σ}
  (gentle : ∀ request, request.HandsOff apart → Gentle apart (handler request))

include gentle

theorem runProgram {program : Program σ α} (handsOff : program.HandsOff apart) :
    Gentle apart (runProgram handler program) := by
  induction handsOff with
  | finish a => exact pure a
  | request asked _ ih => exact bind (gentle _ asked) ih
  | inspect _ ih => exact get_bind fun e => ih e.foreign e.dispatcher.pending
  | update _ ih => exact bind (modify fun _ => .of_same rfl rfl rfl rfl) fun _ => ih
  | remark _ ih => exact bind (record _) fun _ => ih

theorem announce (signal : Ref) : Gentle apart (announce handler signal) :=
  get_bind fun _ => forEach (fun listener => gentle (.schedule ⟨signal.name, listener⟩) trivial) _

theorem announceEverywhere (signal : String) : Gentle apart (announceEverywhere handler signal) :=
  get_bind fun _ => forEach (fun _ => announce gentle _) _

theorem setGlobal (name : String) (value : Value) :
    Gentle apart (setGlobal handler name value) := by
  refine get_bind fun _ => bind (modify fun _ => .of_same rfl rfl rfl rfl) fun _ => ?_
  split
  · exact pure _
  · exact announceEverywhere gentle _

theorem advanceTicker : Gentle apart (advanceTicker handler) :=
  bind (modify fun _ => .of_same rfl rfl rfl rfl) fun _ => announceEverywhere gentle _

theorem act (action : Ref) (values : List Value) : Gentle apart (act handler action values) := by
  intro e outcome e' tame run
  simp only [Engine.act, Run.get_bind_apply] at run
  cases known : e.provider action.name with
  | error error =>
    simp only [known] at run
    cases run
    exact .refl e
  | ok provider =>
    cases provider with
    | globals =>
      simp only [known] at run
      revert run
      suffices Gentle apart _ from this e outcome e' tame
      split
      · split
        · split
          · exact bind (setGlobal gentle _ _) fun _ => pure _
          · exact pure _
        · exact pure _
      · exact pure _
    | diagnostics =>
      simp only [known] at run
      revert run
      suffices Gentle apart _ from this e outcome e' tame
      split
      · split
        · split
          · exact bind (record _) fun _ => pure _
          · exact pure _
        · exact pure _
      · exact pure _
    | device device =>
      simp only [known] at run
      exact runProgram gentle (tame.devices device (device_mem known) action values) _ _ _ tame run

theorem perform (action : Ref) (values : List Value) :
    Gentle apart (perform handler action values) :=
  bind (record _) fun _ => bind (act gentle action values) fun _ => bind (record _) fun _ => pure _

theorem performCall (call : Call) : Gentle apart (performCall handler call) := by
  intro e outcome e' tame run
  obtain ⟨os, e₁, evaluated, aside, -⟩ := arguments_run call e
  obtain ⟨_, _, ran, rest⟩ := Run.bind_eq_some_iff.1 run
  rw [evaluated] at ran
  cases ran
  have undisturbed : Undisturbed apart e e₁ := .of_aside aside
  refine undisturbed.trans ?_
  cases os with
  | ready values =>
    exact bind (perform gentle _ values) (fun _ => pure _) _ _ _ (undisturbed.tame tame) rest
  | interrupted _ | failed _ =>
    cases rest
    exact .refl _

theorem check (id : ListenerId) : Gentle apart (check handler id) := by
  intro e result e' tame run
  rcases check_cases run with ⟨_, _, rfl⟩ | ⟨rule, truth, e₁, judged, rest⟩
  · exact .refl e'
  · have evaluated : Undisturbed apart e e₁ := .of_aside judged.aside
    have running : rule.state ≠ .inactive := by
      rw [judged.active]
      decide
    refine evaluated.trans ?_
    have found := judged.still_found
    cases truth with
    | interrupted _ =>
      obtain ⟨-, rfl⟩ := rest
      exact .refl _
    | failed error =>
      obtain ⟨-, rfl⟩ := rest
      exact .breakDown found running _
    | ready holds =>
      have held : Undisturbed apart e₁ (e₁.hold id holds) := .hold found holds
      refine held.trans ?_
      dsimp only at rest
      split at rest
      · obtain ⟨outcome, e₂, ran, concluded⟩ := rest
        have performed := performCall gentle rule.action _ _ _ (held.tame (evaluated.tame tame)) ran
        obtain ⟨_, found', _, inactive'⟩ := held.rules found
        obtain ⟨_, found'', _, inactive''⟩ := performed.rules found'
        have noted := performed.note (.fired id outcome)
        refine noted.trans (.conclude (e := e₂.note _) found'' ?_ concluded)
        rw [ne_eq, inactive'', inactive']
        exact running
      · obtain ⟨-, rfl⟩ := rest
        exact .refl _

theorem respond (callback : Callback) : Gentle apart (respond handler callback) := by
  intro e result e' tame run
  rw [Engine.respond, Run.get_bind_apply] at run
  cases known : e.listener? callback.listener with
  | none =>
    simp only [known] at run
    cases run
    exact .refl e
  | some listener =>
    simp only [known] at run
    cases listener with
    | rule _ => exact check gentle callback.listener _ _ _ tame run
    | external _ _ => exact runProgram gentle (tame.strangers known callback.signal) _ _ _ tame run

theorem schedule (callback : Callback) : Gentle apart (schedule handler callback) := by
  intro e result e' tame run
  rcases schedule_cases run with ⟨error, _, rfl, rfl⟩ | ⟨_, e₁, responded, rfl⟩
  · exact .refuse e callback error
  · have taken : Undisturbed apart e (e.takeUp callback) := .takeUp e callback
    exact (taken.trans (respond gentle callback _ _ _ (taken.tame tame) responded)).trans
      (.leave e₁ callback result)

omit gentle in
theorem install (owner : Option ListenerId) (action : Ref) :
    Gentle apart (install (σ := σ) owner action) := by
  refine get_bind fun e => ?_
  split
  · exact pure _
  · refine get_bind fun _ => bind (modify fun _ => .of_same rfl rfl rfl rfl) fun _ => ?_
    exact bind (record _) fun _ => pure _
  · exact bind (record _) fun _ => pure _

omit gentle in
theorem uninstall (owner : Option ListenerId) (action : Ref) :
    Gentle apart (uninstall (σ := σ) owner action) := by
  refine get_bind fun e => ?_
  split
  · exact pure _
  · exact bind (modify fun _ => .of_same rfl rfl rfl rfl) fun _ => record _
  · exact record _

theorem serve {request : Request} (handsOff : request.HandsOff apart) :
    Gentle apart (serve handler request) := by
  cases request with
  | schedule callback => exact schedule gentle callback
  | announce signal => exact announce gentle signal
  | set name value =>
    rw [Engine.serve]
    split
    · split
      · exact setGlobal gentle name value
      · exact pure _
    · exact pure _
  | advance => exact advanceTicker gentle
  | subscribe signal listener =>
    refine get_bind fun e => ?_
    split
    · exact pure _
    · exact bind (modify fun e => .subscribe e signal handsOff) fun _ => pure _
  | unsubscribe signal listener =>
    exact bind (modify fun e => .unsubscribe e signal handsOff) fun _ => pure _
  | activate rule | deactivate rule => exact handsOff.elim
  | check rule => exact check gentle rule
  | install action => exact install none action
  | uninstall action => exact bind (uninstall none action) fun _ => pure _

omit gentle in
theorem handle : ∀ (depth : Nat) (request : Request), request.HandsOff apart →
    Gentle apart (handle (σ := σ) depth request)
  | 0, _, _ => by
    rintro e a e' - ⟨⟩
  | depth + 1, _, handsOff => serve (handle depth) handsOff

end Gentle

end Engine

end SignalRules
