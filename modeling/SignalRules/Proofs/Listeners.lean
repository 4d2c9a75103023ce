import SignalRules.Engine.Run

/-! # Listeners and rules

What becomes of the listeners of an engine, and of its rules among them, when one more is numbered
or one rule is modified.
-/

namespace SignalRules

/-- What a rule was made of; the rest of it changes as it runs. -/
def Rule.parts (rule : Rule) : Rule :=
  { rule with state := .inactive, held := false, error := none }

namespace Engine

variable {σ : Type}

theorem listener?_eq_of_rule? {e : Engine σ} {id : ListenerId} {rule : Rule}
    (found : e.rule? id = some rule) : e.listener? id = some (.rule rule) := by
  unfold rule? at found
  split at found
  · rename_i known
    injection found with same
    rw [known, same]
  · cases found

theorem rule?_eq_of_listener? {e : Engine σ} {id : ListenerId} {rule : Rule}
    (known : e.listener? id = some (.rule rule)) : e.rule? id = some rule := by
  rw [rule?, known]

theorem rule?_congr {e e' : Engine σ} (same : e'.listeners = e.listeners) :
    e'.rule? = e.rule? := by
  funext id
  unfold rule? listener?
  rw [same]

/-! ## New listeners -/

theorem listener?_create (config : Config) (foreign : σ) (id : ListenerId) :
    (create config foreign).listener? id = none := by
  unfold listener?
  split <;> rfl

theorem rule?_create (config : Config) (foreign : σ) (id : ListenerId) :
    (create config foreign).rule? id = none := by
  rw [rule?, listener?_create]

theorem listener?_addListener (e : Engine σ) (listener : Listener σ) (id : ListenerId) :
    (e.addListener listener).2.listener? id =
      if id = (e.addListener listener).1 then some listener else e.listener? id := by
  obtain ⟨number⟩ := id
  simp only [addListener, ListenerId.mk.injEq, listener?]
  by_cases last : number = e.listeners.length + 1
  · subst last
    simp
  · rw [if_neg last]
    by_cases zero : number = 0
    · simp [zero]
    · have same : (e.listeners ++ [listener])[number - 1]? = e.listeners[number - 1]? := by
        by_cases old : number - 1 < e.listeners.length
        · exact List.getElem?_append_left old
        · rw [List.getElem?_eq_none (by simp; omega), List.getElem?_eq_none (by omega)]
      simp only [if_neg zero, same]

theorem rule?_addListener (e : Engine σ) (rule : Rule) (id : ListenerId) :
    (e.addListener (.rule rule)).2.rule? id =
      if id = (e.addListener (.rule rule)).1 then some rule else e.rule? id := by
  unfold rule?
  rw [listener?_addListener]
  by_cases new : id = (e.addListener (.rule rule)).1
  · rw [if_pos new, if_pos new]
  · rw [if_neg new, if_neg new]

theorem rule?_addListener_of_some {e : Engine σ} {id : ListenerId} {rule : Rule}
    (found : e.rule? id = some rule) (new : Listener σ) :
    (e.addListener new).2.rule? id = some rule := by
  have known := listener?_eq_of_rule? found
  apply rule?_eq_of_listener?
  rw [listener?_addListener, if_neg]
  · exact known
  · rintro rfl
    simp [addListener, listener?] at known

/-- The number of a new listener is new. -/
theorem listener?_new (e : Engine σ) (listener : Listener σ) :
    e.listener? (e.addListener listener).1 = none := by
  simp [listener?, addListener]

theorem rule?_addListener_external (e : Engine σ) (name : String)
    (respond : String → Program σ (Except ScriptError Unit)) (id : ListenerId) :
    (e.addListener (.external name respond)).2.rule? id = e.rule? id := by
  unfold rule?
  rw [listener?_addListener]
  by_cases new : id = (e.addListener (.external name respond)).1
  · rw [if_pos new, new, listener?_new]
  · rw [if_neg new]

/-! ## Modified rules -/

theorem listener?_modifyRule_of_ne (e : Engine σ) {id other : ListenerId} (ne : other ≠ id)
    (f : Rule → Rule) : (e.modifyRule id f).listener? other = e.listener? other := by
  unfold modifyRule
  cases found : e.rule? id with
  | none => rfl
  | some rule =>
    unfold listener?
    by_cases zero : other.number = 0
    · rw [if_pos zero, if_pos zero]
    · have positive : id.number ≠ 0 := by
        intro zero
        rw [rule?, listener?, if_pos zero] at found
        cases found
      have apart : id.number - 1 ≠ other.number - 1 := by
        intro equal
        apply ne
        cases other
        cases id
        simp only [ListenerId.mk.injEq] at *
        omega
      rw [if_neg zero, if_neg zero, List.getElem?_set_ne apart]

theorem rule?_modifyRule_self {e : Engine σ} {id : ListenerId} {rule : Rule}
    (found : e.rule? id = some rule) (f : Rule → Rule) :
    (e.modifyRule id f).rule? id = some (f rule) := by
  have known := listener?_eq_of_rule? found
  unfold listener? at known
  split at known
  · cases known
  · rename_i positive
    have bound := (List.getElem?_eq_some_iff.1 known).1
    rw [modifyRule, found]
    simp [rule?, listener?, positive, bound]

/-- A rule that is found after a change is what the change has made of it. -/
theorem of_rule?_modifyRule {e : Engine σ} {id : ListenerId} {f : Rule → Rule} {rule : Rule}
    (found : (e.modifyRule id f).rule? id = some rule) :
    ∃ old, e.rule? id = some old ∧ rule = f old := by
  cases known : e.rule? id with
  | none =>
    rw [modifyRule, known] at found
    rw [found] at known
    cases known
  | some old =>
    rw [rule?_modifyRule_self known f] at found
    cases found
    exact ⟨old, rfl, rfl⟩

theorem rule?_modifyRule_of_ne (e : Engine σ) {id other : ListenerId} (ne : other ≠ id)
    (f : Rule → Rule) : (e.modifyRule id f).rule? other = e.rule? other := by
  unfold rule?
  rw [listener?_modifyRule_of_ne e ne]

theorem rule?_modifyRule (e : Engine σ) (id other : ListenerId) (f : Rule → Rule) :
    (e.modifyRule id f).rule? other =
      if other = id then (e.rule? other).map f else e.rule? other := by
  by_cases same : other = id
  · subst same
    rw [if_pos rfl]
    cases found : e.rule? other with
    | none =>
      rw [modifyRule, found]
      exact found
    | some rule => exact rule?_modifyRule_self found f
  · rw [if_neg same, rule?_modifyRule_of_ne e same]

/-- All that modifying a rule changes is the rule. -/
theorem modifyRule_eq (e : Engine σ) (id : ListenerId) (f : Rule → Rule) :
    e.modifyRule id f = { e with listeners := (e.modifyRule id f).listeners } := by
  unfold modifyRule
  split <;> rfl

@[simp] theorem dispatcher_modifyRule (e : Engine σ) (id : ListenerId) (f : Rule → Rule) :
    (e.modifyRule id f).dispatcher = e.dispatcher := by
  rw [modifyRule_eq]

@[simp] theorem devices_modifyRule (e : Engine σ) (id : ListenerId) (f : Rule → Rule) :
    (e.modifyRule id f).devices = e.devices := by
  rw [modifyRule_eq]

@[simp] theorem subscriptions_modifyRule (e : Engine σ) (id : ListenerId) (f : Rule → Rule) :
    (e.modifyRule id f).subscriptions = e.subscriptions := by
  rw [modifyRule_eq]

@[simp] theorem journal_modifyRule (e : Engine σ) (id : ListenerId) (f : Rule → Rule) :
    (e.modifyRule id f).journal = e.journal := by
  rw [modifyRule_eq]

theorem modifyRule_self (e : Engine σ) (id : ListenerId) :
    e.modifyRule id (fun rule => rule) = e := by
  unfold modifyRule
  cases found : e.rule? id with
  | none => rfl
  | some rule =>
    have known := listener?_eq_of_rule? found
    unfold listener? at known
    split at known
    · cases known
    · obtain ⟨bound, same⟩ := List.getElem?_eq_some_iff.1 known
      simp only [← same, List.set_getElem_self]

/-! ## What runs keep of rules -/

/-- No rule is lost, and none is made into another. -/
def Keeps (e e' : Engine σ) : Prop :=
  ∀ id rule, e.rule? id = some rule → ∃ rule', e'.rule? id = some rule' ∧ rule'.parts = rule.parts

namespace Keeps

theorem refl (e : Engine σ) : Keeps e e :=
  fun _ rule found => ⟨rule, found, rfl⟩

theorem trans {a b c : Engine σ} (ab : Keeps a b) (bc : Keeps b c) : Keeps a c := by
  intro id rule found
  obtain ⟨rule', found', parts⟩ := ab id rule found
  obtain ⟨rule'', found'', parts'⟩ := bc id rule' found'
  exact ⟨rule'', found'', parts'.trans parts⟩

theorem of_listeners {e e' : Engine σ} (listeners : e'.listeners = e.listeners) : Keeps e e' := by
  intro id rule found
  refine ⟨rule, ?_, rfl⟩
  unfold rule? listener? at found ⊢
  rw [listeners]
  exact found

theorem addListener (e : Engine σ) (listener : Listener σ) :
    Keeps e (e.addListener listener).2 :=
  fun _ rule found => ⟨rule, rule?_addListener_of_some found listener, rfl⟩

theorem modifyRule {f : Rule → Rule} (parts : ∀ rule, (f rule).parts = rule.parts)
    (e : Engine σ) (id : ListenerId) : Keeps e (e.modifyRule id f) := by
  intro other rule found
  by_cases same : other = id
  · subst same
    exact ⟨f rule, rule?_modifyRule_self found f, parts rule⟩
  · refine ⟨rule, ?_, rfl⟩
    rw [rule?_modifyRule_of_ne e same]
    exact found

/-- No rule is new, either. -/
theorem from_modifyRule {f : Rule → Rule} (parts : ∀ rule, (f rule).parts = rule.parts)
    (e : Engine σ) (id : ListenerId) : Keeps (e.modifyRule id f) e := by
  intro other rule found
  rw [rule?_modifyRule] at found
  split at found
  · obtain ⟨old, was, rfl⟩ := Option.map_eq_some_iff.1 found
    exact ⟨old, was, (parts old).symm⟩
  · exact ⟨rule, found, rfl⟩

end Keeps

end Engine

end SignalRules
