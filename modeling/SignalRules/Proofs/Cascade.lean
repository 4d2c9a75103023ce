import SignalRules.Proofs.Reading

/-! # Cascades

Among rules alone, with providers that call nobody back, all that a run can do is to check rules,
write global signals and carry out callbacks, one inside the other. `Cascade` says what each of
these does, case by case; every run of such an engine is a cascade, and what is said of cascades is
proved by induction on them.
-/

namespace SignalRules

/-- What a rule can become while others, or itself, are checked: a rule that is not active stays as
it is, and no rule becomes inactive. -/
structure Rule.Follows (rule rule' : Rule) : Prop where
  parts : ∃ state held error, rule' = { rule with state, held, error }
  resting : rule.state ≠ .active → rule' = rule
  running : rule.state = .active → rule'.state ≠ .inactive

namespace Rule.Follows

theorem refl (rule : Rule) : rule.Follows rule :=
  ⟨⟨rule.state, rule.held, rule.error, rfl⟩, fun _ => rfl, fun active => by simp [active]⟩

theorem trans {a b c : Rule} (ab : a.Follows b) (bc : b.Follows c) : a.Follows c where
  parts := by
    obtain ⟨_, _, _, rfl⟩ := ab.parts
    obtain ⟨state, held, error, rfl⟩ := bc.parts
    exact ⟨state, held, error, rfl⟩
  resting := fun resting => by
    have same := ab.resting resting
    rw [bc.resting (same ▸ resting), same]
  running := fun active => by
    by_cases still : b.state = .active
    · exact bc.running still
    · rw [bc.resting still]
      exact ab.running active

theorem action {rule rule' : Rule} (follows : rule.Follows rule') : rule'.action = rule.action := by
  obtain ⟨_, _, _, rfl⟩ := follows.parts
  rfl

theorem signals {rule rule' : Rule} (follows : rule.Follows rule') :
    rule'.signals = rule.signals := by
  obtain ⟨_, _, _, rfl⟩ := follows.parts
  rfl

theorem was_active {rule rule' : Rule} (follows : rule.Follows rule')
    (active : rule'.state = .active) : rule.state = .active := by
  by_cases was : rule.state = .active
  · exact was
  · rwa [follows.resting was] at active

end Rule.Follows

/-- A change that the end of its action may make to a rule. -/
structure Rule.Settles (f : Rule → Rule) : Prop where
  parts : ∀ rule, ∃ state held error, f rule = { rule with state, held, error }
  held : ∀ rule, (f rule).held = true → rule.held = true
  running : ∀ rule, rule.state ≠ .inactive → (f rule).state ≠ .inactive

namespace Engine

variable {σ : Type}

/-! ## Changes of rules -/

/-- Note whether the condition of a rule was true. -/
def hold (e : Engine σ) (id : ListenerId) (held : Bool) : Engine σ :=
  e.modifyRule id fun rule => { rule with held }

def complete (e : Engine σ) (id : ListenerId) : Engine σ :=
  e.modifyRule id fun rule => { rule with state := .completed }

/-- Break a rule by an error. -/
def breakDown (e : Engine σ) (id : ListenerId) (error : ScriptError) : Engine σ :=
  e.modifyRule id fun rule => { rule with state := .failed, error := some error }

/-- How a rule takes the outcome of its action, the dispatcher having counted `before` failures
when the action began. -/
def conclude (e : Engine σ) (id : ListenerId) (before : Nat) :
    Outcome Expr.Completion → Except ScriptError Unit × Engine σ
  | .ready .done => (.ok (), e)
  | .ready .doneOnce => (.ok (), e.complete id)
  | .interrupted _ => (.ok (), e.hold id false)
  | .failed error =>
    if e.dispatcher.failures ≠ before then (.error error, e)
    else (.error error.intoRuntime, e.breakDown id error.intoRuntime)

/-- If a rule makes nothing of the write of its action, the write has succeeded. -/
theorem written_of_concluded {e e' : Engine σ} {id : ListenerId} {before : Nat}
    {written : Except ScriptError Unit} {c : Expr.Completion}
    (concluded : e.conclude id before ((Outcome.ofExcept written).map fun _ => c) = (.ok (), e')) :
    written = .ok () := by
  cases written with
  | ok _ => rfl
  | error error =>
    simp only [Outcome.ofExcept, Outcome.map, Outcome.andThen, conclude] at concluded
    split at concluded <;> cases concluded

/-- To conclude an action settles its rule. -/
theorem settled_of_concluded {e e' : Engine σ} {id : ListenerId} {before : Nat}
    {outcome : Outcome Expr.Completion} {result : Except ScriptError Unit}
    (concluded : e.conclude id before outcome = (result, e')) :
    ∃ f, Rule.Settles f ∧ e' = e.modifyRule id f := by
  have same : Rule.Settles fun rule => rule :=
    ⟨fun rule => ⟨rule.state, rule.held, rule.error, rfl⟩, fun _ => (·), fun _ => (·)⟩
  unfold conclude at concluded
  split at concluded
  · cases concluded
    exact ⟨_, same, (modifyRule_self e id).symm⟩
  · cases concluded
    exact ⟨_, ⟨fun rule => ⟨.completed, rule.held, rule.error, rfl⟩, fun _ => (·),
      fun _ _ => nofun⟩, rfl⟩
  · cases concluded
    exact ⟨_, ⟨fun rule => ⟨rule.state, false, rule.error, rfl⟩, fun _ => nofun, fun _ => (·)⟩, rfl⟩
  · split at concluded
    · cases concluded
      exact ⟨_, same, (modifyRule_self e id).symm⟩
    · cases concluded
      exact ⟨_, ⟨fun rule => ⟨.failed, rule.held, some _, rfl⟩, fun _ => (·),
        fun _ _ => nofun⟩, rfl⟩

theorem outcome_modifyRule {e : Engine σ} (bare : e.devices = []) (id : ListenerId)
    (f : Rule → Rule) : (e.modifyRule id f).outcome = e.outcome :=
  outcome_congr bare (devices_modifyRule e id f) (by rw [modifyRule_eq]) (by rw [modifyRule_eq])

/-! ## What stays -/

/-- What no check, write or callback changes. -/
structure Framed (e e' : Engine σ) : Prop where
  config : e'.config = e.config
  ticker : e'.ticker = e.ticker
  subscriptions : e'.subscriptions = e.subscriptions
  devices : e'.devices = e.devices
  limit : e'.dispatcher.limit = e.dispatcher.limit
  rules : ∀ {id rule}, e.rule? id = some rule →
    ∃ rule', e'.rule? id = some rule' ∧ rule.Follows rule'
  strangers : ∀ {id}, e.rule? id = none → e'.listener? id = e.listener? id
  globals : ∀ name, (e.globals.get? name).isSome → (e'.globals.get? name).isSome

namespace Framed

theorem refl (e : Engine σ) : Framed e e where
  config := rfl
  ticker := rfl
  subscriptions := rfl
  devices := rfl
  limit := rfl
  rules found := ⟨_, found, .refl _⟩
  strangers _ := rfl
  globals _ := id

theorem rule?_none {e e' : Engine σ} (framed : Framed e e') {id : ListenerId}
    (stranger : e.rule? id = none) : e'.rule? id = none := by
  unfold rule? at stranger ⊢
  rwa [framed.strangers stranger]

theorem was_found {e e' : Engine σ} (framed : Framed e e') {id : ListenerId} {rule' : Rule}
    (found' : e'.rule? id = some rule') : ∃ rule, e.rule? id = some rule ∧ rule.Follows rule' := by
  cases found : e.rule? id with
  | none =>
    rw [framed.rule?_none found] at found'
    cases found'
  | some rule =>
    obtain ⟨_, same, follows⟩ := framed.rules found
    rw [found'] at same
    cases same
    exact ⟨rule, rfl, follows⟩

theorem keeps_from {e e' : Engine σ} (framed : Framed e e') : Keeps e' e := by
  intro id rule' found'
  obtain ⟨rule, found, follows⟩ := framed.was_found found'
  obtain ⟨_, _, _, rfl⟩ := follows.parts
  exact ⟨rule, found, rfl⟩

theorem trans {a b c : Engine σ} (ab : Framed a b) (bc : Framed b c) : Framed a c where
  config := bc.config.trans ab.config
  ticker := bc.ticker.trans ab.ticker
  subscriptions := bc.subscriptions.trans ab.subscriptions
  devices := bc.devices.trans ab.devices
  limit := bc.limit.trans ab.limit
  rules found := by
    obtain ⟨_, found, first⟩ := ab.rules found
    obtain ⟨rule, found, rest⟩ := bc.rules found
    exact ⟨rule, found, first.trans rest⟩
  strangers stranger := (bc.strangers (ab.rule?_none stranger)).trans (ab.strangers stranger)
  globals name had := bc.globals name (ab.globals name had)

theorem of_aside {e e' : Engine σ} (aside : Aside e e') : Framed e e' := by
  obtain ⟨_, _, _, rfl⟩ := aside
  exact { Framed.refl e with }

/-- The rule that is checked may be changed in the end, whatever has become of it meanwhile. -/
theorem modify {e e' : Engine σ} (framed : Framed e e') {id : ListenerId} {rule : Rule}
    (found : e.rule? id = some rule) (active : rule.state = .active) {f : Rule → Rule}
    (parts : ∀ rule, ∃ state held error, f rule = { rule with state, held, error })
    (running : ∀ rule, rule.state ≠ .inactive → (f rule).state ≠ .inactive) :
    Framed e (e'.modifyRule id f) := by
  obtain ⟨rule', found', follows⟩ := framed.rules found
  have same := modifyRule_eq e' id f
  exact
    { config := (congrArg Engine.config same).trans framed.config
      ticker := (congrArg Engine.ticker same).trans framed.ticker
      subscriptions := (congrArg Engine.subscriptions same).trans framed.subscriptions
      devices := (congrArg Engine.devices same).trans framed.devices
      limit := (congrArg (·.dispatcher.limit) same).trans framed.limit
      globals := fun name had => congrArg (fun e => (e.globals.get? name).isSome) same ▸
        framed.globals name had
      rules := by
        intro other old known
        by_cases ne : other = id
        · subst ne
          rw [found] at known
          injection known with known
          subst known
          refine ⟨f rule', rule?_modifyRule_self found' f, ?_, absurd active, fun _ => ?_⟩
          · obtain ⟨_, _, _, rfl⟩ := follows.parts
            obtain ⟨state, held, error, same⟩ := parts _
            exact ⟨state, held, error, same⟩
          · exact running rule' (follows.running active)
        · rw [rule?_modifyRule_of_ne e' ne]
          exact framed.rules known
      strangers := by
        intro other stranger
        have ne : other ≠ id := by
          rintro rfl
          rw [found] at stranger
          cases stranger
        rw [listener?_modifyRule_of_ne e' ne]
        exact framed.strangers stranger }

theorem hold {e e' : Engine σ} (framed : Framed e e') {id : ListenerId} {rule : Rule}
    (found : e.rule? id = some rule) (active : rule.state = .active) (held : Bool) :
    Framed e (e'.hold id held) :=
  framed.modify found active (fun rule => ⟨rule.state, held, rule.error, rfl⟩) fun _ => (·)

theorem breakDown {e e' : Engine σ} (framed : Framed e e') {id : ListenerId} {rule : Rule}
    (found : e.rule? id = some rule) (active : rule.state = .active) (error : ScriptError) :
    Framed e (e'.breakDown id error) :=
  framed.modify found active (fun rule => ⟨.failed, rule.held, some error, rfl⟩) fun _ _ => nofun

theorem note {e e' : Engine σ} (framed : Framed e e') (event : Event) : Framed e (e'.note event) :=
  framed.trans { refl e' with }

theorem conclude {e e' e'' : Engine σ} (framed : Framed e e') {id : ListenerId} {rule : Rule}
    (found : e.rule? id = some rule) (active : rule.state = .active) {before : Nat}
    {outcome : Outcome Expr.Completion} {result : Except ScriptError Unit}
    (concluded : e'.conclude id before outcome = (result, e'')) : Framed e e'' := by
  obtain ⟨_, settles, rfl⟩ := settled_of_concluded concluded
  exact framed.modify found active settles.parts settles.running

theorem put (e : Engine σ) (name : String) (value : Value) :
    Framed e { e with globals := e.globals.put name value } :=
  { refl e with
    globals := fun other had => by
      rw [Globals.get?_put]
      split
      · rfl
      · exact had }

theorem refuse (e : Engine σ) (callback : Callback) (error : DispatchError) :
    Framed e (e.refuse callback error) :=
  { refl e with limit := Dispatcher.limit_enter e.dispatcher callback }

theorem takeUp (e : Engine σ) (callback : Callback) : Framed e (e.takeUp callback) :=
  { refl e with limit := Dispatcher.limit_enter e.dispatcher callback }

theorem leave (e : Engine σ) (callback : Callback) (result : Except ScriptError Unit) :
    Framed e (e.leave callback result) :=
  { refl e with limit := Dispatcher.limit_leave e.dispatcher callback result }

end Framed

/-! ## Cascades -/

end Engine

/-- What becomes of a condition: whether its value is true. -/
def Expr.truth (outcome : Ref → Outcome Value) (condition : Expr) : Outcome Bool :=
  (condition.value outcome).andThen fun v => .ofExcept v.isTrue

def Call.completion (call : Call) : Expr.Completion :=
  if call.once then .doneOnce else .done

/-- The callbacks that a change of a signal gives rise to. -/
def Subscriptions.callbacks (t : Subscriptions) (signal : String) : List Callback :=
  (t.hosts signal).flatMap fun host =>
    (t.listeners ⟨signal, host⟩).map fun listener => ⟨signal, listener⟩

theorem Subscriptions.mem_callbacks {t : Subscriptions} {signal : Ref} {id : ListenerId}
    (member : id ∈ t.listeners signal) : ⟨signal.name, id⟩ ∈ t.callbacks signal.name :=
  List.mem_flatMap.2 ⟨signal.host, mem_hosts_of_mem_listeners member,
    List.mem_map.2 ⟨id, member, rfl⟩⟩

theorem Subscriptions.listens_of_mem_callbacks {t : Subscriptions} {signal : String}
    {callback : Callback} (member : callback ∈ t.callbacks signal) :
    callback.signal = signal ∧ ∃ host, callback.listener ∈ t.listeners ⟨signal, host⟩ := by
  obtain ⟨host, _, member⟩ := List.mem_flatMap.1 member
  obtain ⟨_, listed, rfl⟩ := List.mem_map.1 member
  exact ⟨rfl, host, listed⟩

theorem Subscriptions.signal_of_mem_callbacks {t : Subscriptions} {signal : String}
    {callback : Callback} (member : callback ∈ t.callbacks signal) : callback.signal = signal :=
  (listens_of_mem_callbacks member).1

/-- What an engine may be about. -/
inductive Task where
  | check (rule : ListenerId)
  /-- Write a global signal, by its local name. -/
  | write (name : String) (value : Value)
  /-- Carry out callbacks in turn, up to the first that fails. -/
  | deliver (callbacks : List Callback)
  | schedule (callback : Callback)

namespace Engine

variable {σ : Type}

/-- An active rule has had its condition evaluated. -/
structure Judged (e : Engine σ) (id : ListenerId) (rule : Rule) (truth : Outcome Bool)
    (e' : Engine σ) : Prop where
  found : e.rule? id = some rule
  active : rule.state = .active
  aside : Aside e e'
  truth_eq : e.devices = [] → truth = rule.condition.truth e.outcome
  evaluated : ∃ value, rule.condition.evaluate read e = some (value, e') ∧
    truth = value.andThen fun v => .ofExcept v.isTrue

namespace Judged

theorem bare {e e' : Engine σ} {id : ListenerId} {rule : Rule} {truth : Outcome Bool}
    (judged : Judged e id rule truth e') (bare : e.devices = []) : e'.devices = [] :=
  judged.aside.devices.trans bare

theorem still_found {e e' : Engine σ} {id : ListenerId} {rule : Rule}
    {truth : Outcome Bool} (judged : Judged e id rule truth e') : e'.rule? id = some rule := by
  obtain ⟨found, _, ⟨_, _, _, rfl⟩, _, _⟩ := judged
  exact found

theorem bare_hold {e e' : Engine σ} {id : ListenerId} {rule : Rule} {truth : Outcome Bool}
    (judged : Judged e id rule truth e') (bare : e.devices = []) (held : Bool) :
    (e'.hold id held).devices = [] :=
  (devices_modifyRule e' id _).trans (judged.bare bare)

theorem framed_hold {e e' : Engine σ} {id : ListenerId} {rule : Rule}
    {truth : Outcome Bool} (judged : Judged e id rule truth e') (held : Bool) :
    Framed e (e'.hold id held) :=
  (Framed.of_aside judged.aside).hold judged.found judged.active held

end Judged

/-- An action has been tried that tells no listener of anything. -/
structure Attempt (e : Engine σ) (call : Call) (outcome : Outcome Expr.Completion)
    (e' : Engine σ) : Prop where
  aside : Aside e e'
  completion : ∀ c, outcome = .ready c → c = call.completion
  notPutOff : e.devices = [] → Expr.Settled e.outcome (Tree.signalsAll call.args) →
    ∀ reason, outcome ≠ .interrupted reason
  performed : ∃ handler, performCall handler call e = some (outcome, e')

/-- An action is about to write a global signal. -/
structure Writing (e : Engine σ) (call : Call) (name : String) (value : Value)
    (e' : Engine σ) : Prop where
  action : call.binding.ref.name = Globals.setAction
  aside : Aside e e'
  arguments : e.devices = [] →
    Expr.argumentValues e.outcome call = .ready [.string name, value]

/-- Carrying out the task on the first engine can have this result and lead to the second. -/
inductive Cascade : Task → Engine σ → Except ScriptError Unit → Engine σ → Prop where
  /-- Only active rules are checked. -/
  | asleep {e : Engine σ} {id : ListenerId}
    (resting : ∀ rule, e.rule? id = some rule → rule.state ≠ .active) :
    Cascade (.check id) e (.ok ()) e
  | unclear {e e₁ : Engine σ} {id : ListenerId} {rule : Rule} {reason : String}
    (judged : Judged e id rule (.interrupted reason) e₁) :
    Cascade (.check id) e (.ok ()) e₁
  | broken {e e₁ : Engine σ} {id : ListenerId} {rule : Rule} {error : ScriptError}
    (judged : Judged e id rule (.failed error) e₁) :
    Cascade (.check id) e (.error error.intoRuntime) (e₁.breakDown id error.intoRuntime)
  /-- The condition has not turned true. -/
  | steady {e e₁ : Engine σ} {id : ListenerId} {rule : Rule} {holds : Bool}
    (judged : Judged e id rule (.ready holds) e₁) (unarmed : (holds && !rule.held) = false) :
    Cascade (.check id) e (.ok ()) (e₁.hold id holds)
  | tried {e e₁ e₂ e' : Engine σ} {id : ListenerId} {rule : Rule}
    {outcome : Outcome Expr.Completion} {result : Except ScriptError Unit}
    (judged : Judged e id rule (.ready true) e₁) (armed : rule.held = false)
    (attempt : Attempt (e₁.hold id true) rule.action outcome e₂)
    (concluded : (e₂.note (.fired id outcome)).conclude id e.dispatcher.failures outcome =
      (result, e')) :
    Cascade (.check id) e result e'
  | wrote {e e₁ e₂ e₃ e₄ e' : Engine σ} {id : ListenerId} {rule : Rule} {name : String}
    {value : Value} {outcome : Outcome Expr.Completion} {written result : Except ScriptError Unit}
    (judged : Judged e id rule (.ready true) e₁) (armed : rule.held = false)
    (writing : Writing (e₁.hold id true) rule.action name value e₂)
    (inner : Cascade (.write name value) e₂ written e₃) (aside : Aside e₃ e₄)
    (outcome_eq : outcome = (Outcome.ofExcept written).map fun _ => rule.action.completion)
    (concluded : (e₄.note (.fired id outcome)).conclude id e.dispatcher.failures outcome =
      (result, e')) :
    Cascade (.check id) e result e'
  | unchanged {e : Engine σ} {name : String} {value : Value}
    (had : e.globals.get? name = some value) :
    Cascade (.write name value) e (.ok ()) { e with globals := e.globals.put name value }
  | changed {e e' : Engine σ} {name : String} {value : Value} {result : Except ScriptError Unit}
    (new : e.globals.get? name ≠ some value)
    (inner : Cascade (.deliver (e.subscriptions.callbacks (Globals.fullName name)))
      { e with globals := e.globals.put name value } result e') :
    Cascade (.write name value) e result e'
  | nil {e : Engine σ} : Cascade (.deliver []) e (.ok ()) e
  | cons {e e₁ e' : Engine σ} {callback : Callback} {callbacks : List Callback}
    {result : Except ScriptError Unit}
    (first : Cascade (.schedule callback) e (.ok ()) e₁)
    (rest : Cascade (.deliver callbacks) e₁ result e') :
    Cascade (.deliver (callback :: callbacks)) e result e'
  | stop {e e' : Engine σ} {callback : Callback} {callbacks : List Callback} {error : ScriptError}
    (first : Cascade (.schedule callback) e (.error error) e') :
    Cascade (.deliver (callback :: callbacks)) e (.error error) e'
  | refused {e : Engine σ} {callback : Callback} {error : DispatchError}
    (verdict : (e.dispatcher.enter callback).2 = .error error) :
    Cascade (.schedule callback) e (.error (.dispatch error)) (e.refuse callback error)
  | taken {e e₁ : Engine σ} {callback : Callback} {result : Except ScriptError Unit}
    (verdict : (e.dispatcher.enter callback).2 = .ok ())
    (inner : Cascade (.check callback.listener) (e.takeUp callback) result e₁) :
    Cascade (.schedule callback) e result (e₁.leave callback result)

namespace Cascade

theorem append {first rest : List Callback} {e e₁ e' : Engine σ} {result : Except ScriptError Unit}
    (before : Cascade (.deliver first) e (.ok ()) e₁)
    (after : Cascade (.deliver rest) e₁ result e') :
    Cascade (.deliver (first ++ rest)) e result e' := by
  induction first generalizing e with
  | nil =>
    cases before
    exact after
  | cons callback callbacks ih =>
    cases before with
    | cons head tail => exact .cons head (ih tail)

theorem append_error {first : List Callback} {e e' : Engine σ} {error : ScriptError}
    (before : Cascade (.deliver first) e (.error error) e') (rest : List Callback) :
    Cascade (.deliver (first ++ rest)) e (.error error) e' := by
  induction first generalizing e with
  | nil => cases before
  | cons callback callbacks ih =>
    cases before with
    | cons head tail => exact .cons head (ih tail)
    | stop head => exact .stop head

/-- No check, write or callback does more than `Framed` allows. -/
theorem framed {task : Task} {e e' : Engine σ} {result : Except ScriptError Unit}
    (cascade : Cascade task e result e') : Framed e e' := by
  induction cascade with
  | asleep _ => exact .refl _
  | unclear judged => exact .of_aside judged.aside
  | broken judged =>
    exact (Framed.of_aside judged.aside).breakDown judged.found judged.active _
  | steady judged _ => exact (Framed.of_aside judged.aside).hold judged.found judged.active _
  | tried judged _ attempt concluded =>
    have held := (Framed.of_aside judged.aside).hold judged.found judged.active true
    have attempted := held.trans (.of_aside attempt.aside)
    exact (attempted.note _).conclude judged.found judged.active concluded
  | wrote judged _ writing _ aside _ concluded inner =>
    have held := (Framed.of_aside judged.aside).hold judged.found judged.active true
    have written := ((held.trans (.of_aside writing.aside)).trans inner).trans (.of_aside aside)
    exact (written.note _).conclude judged.found judged.active concluded
  | unchanged had => exact .put _ _ _
  | changed _ _ inner => exact (Framed.put _ _ _).trans inner
  | nil => exact .refl _
  | cons _ _ first rest => exact first.trans rest
  | stop _ first => exact first
  | refused _ => exact .refuse _ _ _
  | taken _ _ inner => exact ((Framed.takeUp _ _).trans inner).trans (.leave _ _ _)

end Cascade

end Engine

end SignalRules
