import SignalRules.Proofs.Bystanders
import SignalRules.Proofs.Session

/-! # Wiring

Activating a rule subscribes it to the signals of its condition, all of them or none, and taking it
back unsubscribes it from them; neither moves any other subscription. So the rules that somebody
looks after are subscribed to just these signals, and only while they are not inactive.
-/

namespace SignalRules

theorem Rule.mem_signals {rule : Rule} {signal : Ref} : signal ∈ rule.signals ↔
    signal.host = rule.host ∧ signal.name ∈ rule.condition.signalNames := by
  rw [Rule.signals, List.mem_map]
  constructor
  · rintro ⟨name, listed, rfl⟩
    exact ⟨rfl, listed⟩
  · rintro ⟨host, listed⟩
    exact ⟨signal.name, listed, by rw [← host]⟩

namespace Engine

variable {σ : Type} {apart : ListenerId → Prop}

/-! ## One rule -/

theorem subscriptions_install {owner : Option ListenerId} {action : Ref} {e e' : Engine σ}
    {result : Except ScriptError Unit} (run : install owner action e = some (result, e')) :
    e'.subscriptions = e.subscriptions := by
  obtain ⟨_, _, _, rfl⟩ | ⟨_, _, _, rfl⟩ := install_cases run <;> rfl

theorem subscriptions_uninstall {owner : Option ListenerId} {action : Ref} {e e' : Engine σ}
    {done : Unit} (run : uninstall owner action e = some (done, e')) :
    e'.subscriptions = e.subscriptions := by
  obtain ⟨_, _, rfl⟩ | ⟨_, _, _, rfl⟩ := uninstall_cases run <;> rfl

/-- Of all subscriptions, only those of this listener to these signals may have changed. -/
structure Wires (id : ListenerId) (signals : List Ref) (e e' : Engine σ) : Prop where
  rewired : Rewired id e e'
  proper : e.subscriptions.Proper → e'.subscriptions.Proper
  others : e.subscriptions.Proper → ∀ {other signal}, ¬ (other = id ∧ signal ∈ signals) →
    (other ∈ e'.subscriptions.listeners signal ↔ other ∈ e.subscriptions.listeners signal)

namespace Wires

variable {id : ListenerId} {signals : List Ref} {e e' : Engine σ}

theorem refl (id : ListenerId) (signals : List Ref) (e : Engine σ) : Wires id signals e e :=
  ⟨.refl id e, fun proper => proper, fun _ _ _ _ => Iff.rfl⟩

theorem trans {a b c : Engine σ} (ab : Wires id signals a b) (bc : Wires id signals b c) :
    Wires id signals a c :=
  ⟨ab.rewired.trans bc.rewired, fun proper => bc.proper (ab.proper proper),
    fun proper _ _ other => (bc.others (ab.proper proper) other).trans (ab.others proper other)⟩

theorem of_same (rewired : Rewired id e e') (same : e'.subscriptions = e.subscriptions) :
    Wires id signals e e' :=
  ⟨rewired, fun proper => same ▸ proper, fun _ _ _ _ => same ▸ Iff.rfl⟩

theorem install {owner : Option ListenerId} {action : Ref} {result : Except ScriptError Unit}
    (run : Engine.install owner action e = some (result, e')) : Wires id signals e e' :=
  .of_same (.install run) (subscriptions_install run)

theorem uninstall {owner : Option ListenerId} {action : Ref} {done : Unit}
    (run : Engine.uninstall owner action e = some (done, e')) : Wires id signals e e' :=
  .of_same (.uninstall run) (subscriptions_uninstall run)

theorem subscribe {signal : Ref} (listed : signal ∈ signals) {result : Except ScriptError Unit}
    (run : Engine.subscribe signal id e = some (result, e')) : Wires id signals e e' := by
  have rewired := (Rewired.subscribe run).1
  simp only [Engine.subscribe, Run.get_bind_apply] at run
  cases allowed : e.checkSubscribe signal with
  | error _ =>
    simp only [allowed] at run
    cases run
    exact .refl id signals e
  | ok _ =>
    simp only [allowed] at run
    cases run
    refine ⟨rewired, fun proper => proper.add signal id, fun _ other signal' apart => ?_⟩
    rw [Subscriptions.mem_listeners_add, or_iff_left]
    rintro ⟨rfl, rfl⟩
    exact apart ⟨rfl, listed⟩

theorem subscribeAll {listed : List Ref} (among : listed ⊆ signals)
    {result : Except ScriptError Unit}
    (run : forEach (fun signal => Engine.subscribe signal id) listed e = some (result, e')) :
    Wires id signals e e' := by
  induction listed generalizing e with
  | nil =>
    cases run
    exact .refl id signals _
  | cons signal listed ih =>
    obtain ⟨here, rest⟩ := List.cons_subset.1 among
    rw [forEach] at run
    obtain ⟨answer, e₁, ran, run⟩ := Run.bind_eq_some_iff.1 run
    have first := subscribe here ran
    cases answer with
    | error _ =>
      cases run
      exact first
    | ok _ => exact first.trans (ih rest run)

theorem unsubscribeAll {listed : List Ref} (among : listed ⊆ signals) {done : PUnit}
    (run : (listed.forM fun signal => unsubscribe signal id) e = some (done, e')) :
    Wires id signals e e' ∧ (e.subscriptions.Proper → ∀ signal,
      id ∈ e'.subscriptions.listeners signal →
        id ∈ e.subscriptions.listeners signal ∧ signal ∉ listed) := by
  induction listed generalizing e with
  | nil =>
    cases run
    exact ⟨.refl id signals _, fun _ signal left => ⟨left, List.not_mem_nil⟩⟩
  | cons signal listed ih =>
    obtain ⟨here, rest⟩ := List.cons_subset.1 among
    obtain ⟨_, e₁, ran, run⟩ := Run.bind_eq_some_iff.1 run
    have alone : [signal].forM (fun signal => unsubscribe signal id) e = some (⟨⟩, e₁) :=
      Run.bind_eq_some_iff.2 ⟨_, _, ran, rfl⟩
    have rewired : Rewired id e e₁ := Rewired.unsubscribeAll alone
    cases ran
    have first : Wires id signals e
        { e with subscriptions := e.subscriptions.remove signal id } := by
      refine ⟨rewired, fun proper => proper.remove signal id, fun proper other signal' apart => ?_⟩
      rw [proper.mem_listeners_remove, and_iff_left]
      rintro ⟨rfl, rfl⟩
      exact apart ⟨rfl, here⟩
    obtain ⟨second, gone⟩ := ih rest run
    refine ⟨first.trans second, fun proper other left => ?_⟩
    obtain ⟨left, unlisted⟩ := gone (proper.remove signal id) other left
    obtain ⟨left, notHere⟩ := (proper.mem_listeners_remove signal other id id).1 left
    refine ⟨left, fun member => ?_⟩
    rcases List.mem_cons.1 member with rfl | later
    · exact notHere ⟨rfl, rfl⟩
    · exact unlisted later

/-- Nothing is left of the subscriptions of a rule that is taken back. -/
theorem detach {rule : Rule} {done : Unit} (run : Engine.detach id rule e = some (done, e')) :
    Wires id rule.signals e e' ∧ (e.subscriptions.Proper → ∀ signal,
      id ∈ e'.subscriptions.listeners signal →
        id ∈ e.subscriptions.listeners signal ∧ signal ∉ rule.signals) := by
  obtain ⟨_, e₁, ran, run⟩ := Run.bind_eq_some_iff.1 run
  obtain ⟨first, gone⟩ := unsubscribeAll (List.Subset.refl _) ran
  refine ⟨first.trans (uninstall run), fun proper signal left => gone proper signal ?_⟩
  rwa [subscriptions_uninstall run] at left

end Wires

/-- Activating does nothing, or gives up with no subscription more than before, or subscribes the
rule to all its signals, makes it active and checks it. -/
theorem activate_cases {handler : Handler σ} {id : ListenerId} {e e' : Engine σ}
    {result : Except ScriptError Unit} (run : activate handler id e = some (result, e')) :
    e' = e ∨ ∃ rule, e.rule? id = some rule ∧ rule.state = .inactive ∧
      ((Wires id rule.signals e e' ∧ (e.subscriptions.Proper → ∀ signal,
          id ∈ e'.subscriptions.listeners signal → id ∈ e.subscriptions.listeners signal)) ∨
        ∃ e₁, Wires id rule.signals e e₁ ∧
          (∀ signal ∈ rule.signals, id ∈ e₁.subscriptions.listeners signal) ∧
          check handler id (e₁.start id) = some (result, e')) := by
  cases activation run with
  | idle => exact .inl rfl
  | @notInstalled _ rule _ found inactive installs =>
    have same := subscriptions_install installs
    exact .inr ⟨rule, found, inactive, .inl ⟨.install installs, fun _ signal left => same ▸ left⟩⟩
  | @notSubscribed _ _ _ rule _ _ found inactive installs subscribes detaches =>
    have second := (Wires.install installs).trans (.subscribeAll (List.Subset.refl _) subscribes)
    obtain ⟨third, gone⟩ := Wires.detach detaches
    refine .inr ⟨rule, found, inactive, .inl ⟨second.trans third, fun proper signal left => ?_⟩⟩
    obtain ⟨left, unlisted⟩ := gone (second.proper proper) signal left
    exact (second.others proper fun within => unlisted within.2).1 left
  | @listening _ e₂ _ rule _ found inactive installs subscribes checked =>
    have second := (Wires.install installs).trans (.subscribeAll (List.Subset.refl _) subscribes)
    obtain ⟨-, -, all⟩ := Rewired.subscribeAll subscribes
    exact .inr ⟨rule, found, inactive, .inr ⟨e₂, second, all rfl, checked⟩⟩

/-- A rule that is taken back has no subscription left to a signal of its condition. -/
theorem deactivate_cases {id : ListenerId} {e e' : Engine σ} {done : Unit}
    (run : deactivate id e = some (done, e')) :
    (e.rule? id = none ∧ e' = e) ∨ ∃ rule e₁, e.rule? id = some rule ∧ Wires id rule.signals e e₁ ∧
      (e.subscriptions.Proper → ∀ signal, id ∈ e₁.subscriptions.listeners signal →
        id ∈ e.subscriptions.listeners signal ∧ signal ∉ rule.signals) ∧ e' = e₁.stop id := by
  obtain unknown | ⟨rule, e₁, found, detaches, same⟩ := deactivation run
  · exact .inl unknown
  · obtain ⟨wires, gone⟩ := Wires.detach detaches
    exact .inr ⟨rule, e₁, found, wires, gone, same⟩

/-! ## All rules -/

/-- Just the rules that are kept listen, each of them to the signals of its condition, and not while
it is inactive. -/
structure Attentive (apart kept : ListenerId → Prop) (e : Engine σ) : Prop where
  tame : e.Tame apart
  ours : ∀ {id rule}, e.rule? id = some rule → ¬ apart id
  proper : e.subscriptions.Proper
  subscribed : ∀ {id}, ¬ apart id → ∀ signal, id ∈ e.subscriptions.listeners signal ↔
    kept id ∧ ∃ rule, e.rule? id = some rule ∧ rule.state ≠ .inactive ∧ signal ∈ rule.signals

theorem signals_eq_of_parts {rule rule' : Rule} (parts : rule'.parts = rule.parts) :
    rule'.signals = rule.signals :=
  (congrArg Rule.signals parts : rule'.parts.signals = rule.parts.signals)

theorem action_eq_of_parts {rule rule' : Rule} (parts : rule'.parts = rule.parts) :
    rule'.action = rule.action :=
  (congrArg Rule.action parts : rule'.parts.action = rule.parts.action)

theorem actionRef_eq_of_parts {rule rule' : Rule} (parts : rule'.parts = rule.parts) :
    rule'.actionRef = rule.actionRef :=
  (congrArg Rule.actionRef parts : rule'.parts.actionRef = rule.parts.actionRef)

theorem Tame.of_wires {id : ListenerId} {signals : List Ref} {e e' : Engine σ}
    (tame : e.Tame apart) (wires : Wires id signals e e') : e'.Tame apart := by
  obtain ⟨_, _, _, _, _, rfl⟩ := wires.rewired
  exact ⟨tame.devices, tame.strangers⟩

theorem Tame.modifyRule {e : Engine σ} (tame : e.Tame apart) (id : ListenerId) (f : Rule → Rule) :
    (e.modifyRule id f).Tame apart where
  devices := by
    rw [devices_modifyRule]
    exact tame.devices
  strangers := by
    intro other name respond known
    cases found : e.rule? id with
    | none =>
      rw [Engine.modifyRule, found] at known
      exact tame.strangers known
    | some rule =>
      have ne : other ≠ id := by
        rintro rfl
        rw [listener?_eq_of_rule? (rule?_modifyRule_self found f)] at known
        cases known
      rw [listener?_modifyRule_of_ne e ne] at known
      exact tame.strangers known

theorem Tame.addListener {e : Engine σ} (tame : e.Tame apart) {listener : Listener σ}
    (handsOff : ∀ name respond, listener = .external name respond →
      ∀ signal, (respond signal).HandsOff apart) : (e.addListener listener).2.Tame apart where
  devices := tame.devices
  strangers := by
    intro id name respond known
    rw [listener?_addListener] at known
    split at known
    · cases known
      exact handsOff name respond rfl
    · exact tame.strangers known

namespace Attentive

variable {kept : ListenerId → Prop} {e e' : Engine σ}

theorem create (config : Config) (foreign : σ) :
    Attentive apart (fun _ => False) (create config foreign) where
  tame := ⟨nofun, fun known => by rw [listener?_create] at known; cases known⟩
  ours found := by
    rw [rule?_create] at found
    cases found
  proper := Subscriptions.proper_empty
  subscribed _ _ := iff_of_false List.not_mem_nil fun kept => kept.1

theorem congr (attentive : Attentive apart kept e) {kept' : ListenerId → Prop}
    (same : ∀ id, kept id ↔ kept' id) : Attentive apart kept' e :=
  { attentive with
    subscribed := fun ours signal =>
      (attentive.subscribed ours signal).trans (and_congr_left fun _ => same _) }

theorem undisturbed (attentive : Attentive apart kept e) (undisturbed : Undisturbed apart e e') :
    Attentive apart kept e' := by
  have was_found {id : ListenerId} {rule' : Rule} (found' : e'.rule? id = some rule') :
      ∃ rule, e.rule? id = some rule ∧ rule'.parts = rule.parts ∧
        (rule'.state = .inactive ↔ rule.state = .inactive) := by
    cases found : e.rule? id with
    | none =>
      rw [undisturbed.rule?_none found] at found'
      cases found'
    | some rule =>
      obtain ⟨_, same, parts, inactive⟩ := undisturbed.rules found
      cases found'.symm.trans same
      exact ⟨rule, rfl, parts, inactive⟩
  refine ⟨undisturbed.tame attentive.tame, fun found' => ?_, undisturbed.proper attentive.proper,
    fun ours signal => ?_⟩
  · obtain ⟨rule, found, _⟩ := was_found found'
    exact attentive.ours found
  · rw [undisturbed.subscribed attentive.proper ours, attentive.subscribed ours]
    refine and_congr_right fun _ => ⟨?_, ?_⟩
    · rintro ⟨rule, found, running, listed⟩
      obtain ⟨rule', found', parts, inactive⟩ := undisturbed.rules found
      exact ⟨rule', found', mt inactive.1 running, signals_eq_of_parts parts ▸ listed⟩
    · rintro ⟨rule', found', running, listed⟩
      obtain ⟨rule, found, parts, inactive⟩ := was_found found'
      exact ⟨rule, found, mt inactive.2 running, signals_eq_of_parts parts ▸ listed⟩

theorem listen (attentive : Attentive apart kept e) {name : String}
    {respond : String → Program σ (Except ScriptError Unit)}
    (handsOff : ∀ signal, (respond signal).HandsOff apart) :
    Attentive apart kept (e.addListener (.external name respond)).2 := by
  have same := rule?_addListener_external e name respond
  refine ⟨attentive.tame.addListener ?_, fun found => attentive.ours (same _ ▸ found),
    attentive.proper, fun ours signal => ?_⟩
  · rintro _ _ ⟨⟩
    exact handsOff
  · rw [same]
    exact attentive.subscribed ours signal

theorem register (attentive : Attentive apart kept e) {device : Device σ}
    (handsOff : ∀ action values, (device.perform action values).HandsOff apart)
    (registered : e.register device = .ok e') : Attentive apart kept e' := by
  unfold Engine.register at registered
  split at registered
  · cases registered
  · cases registered
    refine ⟨⟨?_, attentive.tame.strangers⟩, attentive.ours, attentive.proper, attentive.subscribed⟩
    intro other member
    rcases List.mem_append.1 member with old | new
    · exact attentive.tame.devices other old
    · cases List.mem_singleton.1 new
      exact handsOff

/-- A new rule does not listen yet. -/
theorem addRule (attentive : Attentive apart kept e) {rule : Rule}
    (ours : ¬ apart (e.addListener (.rule rule)).1) (inactive : rule.state = .inactive) :
    Attentive apart (fun id => kept id ∨ id = (e.addListener (.rule rule)).1)
      (e.addListener (.rule rule)).2 := by
  have fresh : e.rule? (e.addListener (.rule rule)).1 = none := by
    rw [rule?, listener?_new]
  refine ⟨attentive.tame.addListener ?_, ?_, attentive.proper, fun {id} ours' signal => ?_⟩
  · intro name respond external
    cases external
  · intro id other found
    rw [rule?_addListener] at found
    split at found
    · rename_i new
      exact new ▸ ours
    · exact attentive.ours found
  · refine (attentive.subscribed ours' signal).trans ?_
    rw [rule?_addListener]
    by_cases new : id = (e.addListener (.rule rule)).1
    · subst new
      rw [if_pos rfl, fresh]
      refine iff_of_false ?_ ?_
      · rintro ⟨_, _, found, _⟩
        cases found
      · rintro ⟨_, _, ⟨⟩, running, _⟩
        exact running inactive
    · rw [if_neg new, or_iff_left new]

/-- What becomes of one rule and its subscriptions has no part in any other. -/
theorem rewire (attentive : Attentive apart kept e) {id : ListenerId} {rule : Rule} {e₁ : Engine σ}
    (found : e.rule? id = some rule) (wires : Wires id rule.signals e e₁) (f : Rule → Rule)
    {kept' : ListenerId → Prop} (others : ∀ other, other ≠ id → (kept' other ↔ kept other))
    (self : ∀ signal, id ∈ e₁.subscriptions.listeners signal ↔
      kept' id ∧ (f rule).state ≠ .inactive ∧ signal ∈ (f rule).signals) :
    Attentive apart kept' (e₁.modifyRule id f) := by
  refine ⟨(attentive.tame.of_wires wires).modifyRule id f, ?_, ?_, fun {other} ours signal => ?_⟩
  · intro other _ found'
    rw [rule?_modifyRule, wires.rewired.rule?_eq] at found'
    by_cases same : other = id
    · exact same ▸ attentive.ours found
    · rw [if_neg same] at found'
      exact attentive.ours found'
  · rw [subscriptions_modifyRule]
    exact wires.proper attentive.proper
  · rw [subscriptions_modifyRule, rule?_modifyRule, wires.rewired.rule?_eq]
    by_cases same : other = id
    · subst same
      rw [if_pos rfl, found, self]
      simp
    · rw [wires.others attentive.proper (fun within => same within.1), if_neg same, others _ same]
      exact attentive.subscribed ours signal

/-- An inactive rule does not listen. -/
theorem not_subscribed (attentive : Attentive apart kept e) {id : ListenerId} {rule : Rule}
    (found : e.rule? id = some rule) (inactive : rule.state = .inactive) (signal : Ref) :
    id ∉ e.subscriptions.listeners signal := by
  rw [attentive.subscribed (attentive.ours found)]
  rintro ⟨-, _, found', running, -⟩
  cases found.symm.trans found'
  exact running inactive

theorem activate (attentive : Attentive apart kept e) {depth : Nat} {id : ListenerId}
    (here : kept id) {result : Except ScriptError Unit}
    (run : activate (handle depth) id e = some (result, e')) : Attentive apart kept e' := by
  rcases activate_cases run with rfl | ⟨rule, found, inactive, gaveUp | started⟩
  · exact attentive
  · obtain ⟨wires, noMore⟩ := gaveUp
    have quiet := attentive.not_subscribed found inactive
    rw [← modifyRule_self e' id]
    refine attentive.rewire found wires _ (fun _ _ => Iff.rfl) fun signal => ?_
    refine iff_of_false (fun listens => quiet signal ?_) fun ⟨_, running, _⟩ => running inactive
    exact noMore attentive.proper signal listens
  · obtain ⟨e₁, wires, all, checked⟩ := started
    have listening : Attentive apart kept (e₁.start id) := by
      refine attentive.rewire found wires _ (fun _ _ => Iff.rfl) fun signal => ?_
      refine ⟨fun listens => ⟨here, nofun, by_contra fun unlisted => ?_⟩, fun ⟨_, _, listed⟩ =>
        all signal listed⟩
      rw [wires.others attentive.proper (fun within => unlisted within.2)] at listens
      exact attentive.not_subscribed found inactive signal listens
    have check := Gentle.check (Gentle.handle depth) id _ _ _ listening.tame checked
    exact listening.undisturbed check

theorem deactivate (attentive : Attentive apart kept e) {id : ListenerId} {done : Unit}
    (run : deactivate id e = some (done, e')) :
    Attentive apart (fun other => kept other ∧ other ≠ id) e' := by
  rcases deactivate_cases run with ⟨stranger, rfl⟩ | ⟨rule, e₁, found, wires, gone, rfl⟩
  · refine { attentive with subscribed := fun {other} ours signal => ?_ }
    rw [attentive.subscribed ours, and_assoc]
    refine and_congr_right fun _ => ⟨?_, And.right⟩
    rintro ⟨rule, found, listens⟩
    refine ⟨?_, rule, found, listens⟩
    rintro rfl
    rw [stranger] at found
    cases found
  · refine attentive.rewire found wires _ (fun other ne => and_iff_left ne) fun signal => ?_
    refine iff_of_false (fun left => ?_) fun kept => kept.1.2 rfl
    obtain ⟨listens, unlisted⟩ := gone attentive.proper signal left
    obtain ⟨_, _, found', _, listed⟩ :=
      (attentive.subscribed (attentive.ours found) signal).1 listens
    cases found.symm.trans found'
    exact unlisted listed

theorem deactivateAll (attentive : Attentive apart kept e) {ids : List ListenerId} {done : PUnit}
    (run : ids.forM Engine.deactivate e = some (done, e')) :
    Attentive apart (fun other => kept other ∧ other ∉ ids) e' := by
  induction ids generalizing kept e with
  | nil =>
    cases run
    exact attentive.congr fun id => (and_iff_left List.not_mem_nil).symm
  | cons id ids ih =>
    obtain ⟨_, e₁, ran, run⟩ := Run.bind_eq_some_iff.1 run
    refine (ih (attentive.deactivate ran) run).congr fun other => ?_
    rw [List.mem_cons, not_or, and_assoc]

end Attentive

end Engine

end SignalRules
