import SignalRules.Proofs.Invariants
import SignalRules.Proofs.OneShot
import SignalRules.Proofs.Typing

/-! # Names of global signals

There are two ways to write a global signal. A host application gives the name itself, and the name
is checked. A call in a script gives it as an argument, and the compiler checks it if it is written
there; the value of a signal is taken on trust. So all values that are stored are numbers, and where
a name is stored that cannot be one, a device has given it.
-/

namespace SignalRules

/-! ## Calls -/

/-- Texts are written down, or they are the values of signals. -/
theorem Expr.HasType.text_cases {expr : Expr} {type : ValueType} (typed : expr.HasType type)
    (isText : type = .string) :
    (∃ text, expr = .constant (.string text)) ∨ ∃ binding, expr = .signal binding := by
  cases typed with
  | signal binding => exact .inr ⟨binding, rfl⟩
  | comparison _ _ _ | numbers _ _ => cases isText
  | constant value =>
    cases value with
    | number _ => cases isText
    | string text => exact .inl ⟨text, rfl⟩

/-- If the call writes a global signal, the name is a proper one or the value of a signal. -/
def Call.NamesSignal (call : Call) : Prop :=
  call.binding.ref.name = Globals.setAction → call.binding.definition = Globals.setDefinition ∧
    ∃ name value, call.args = [name, value] ∧
      ((∃ text, name = .constant (.string text) ∧ Globals.isName text) ∨
        ∃ binding, name = .signal binding)

namespace Engine

variable {σ α : Type} {e e' : Engine σ} {host : HostId}

theorem namesSignal_of_parseCall {script : String} {call : Call}
    (parsed : (e.scope host).parseCall script = .ok call) : call.NamesSignal := by
  obtain ⟨_, _, found, _, arguments, _⟩ := Scope.meansCall_of_parseCall parsed
  intro sets
  simp only at sets
  subst sets
  obtain rfl := actionDef_setAction found
  have typed := arguments.hasTypes
  cases arguments with
  | cons _ fits rest =>
    cases rest with
    | cons _ _ none =>
      cases none
      refine ⟨rfl, _, _, rfl, ?_⟩
      have checked := (Expr.conform_eq_ok_iff.1 fits).checked Globals.checkNameArgument rfl
      rcases (List.forall₂_cons.1 typed).1.text_cases rfl with ⟨text, rfl⟩ | isSignal
      · refine .inl ⟨text, rfl, ?_⟩
        simp only [Expr.term, Tree.map, Globals.checkNameArgument] at checked
        split at checked
        · assumption
        · cases checked
      · exact .inr isSignal

/-! ## Arguments -/

theorem evaluateAll_cons_ready {expr : Expr} {exprs : List Expr} {values : List Value}
    (run : Expr.evaluateAll read (expr :: exprs) e = some (.ready values, e')) :
    ∃ value rest e₁, values = value :: rest ∧
      expr.evaluate read e = some (.ready value, e₁) ∧
        Expr.evaluateAll read exprs e₁ = some (.ready rest, e') := by
  rw [Expr.evaluateAll] at run
  obtain ⟨first, e₁, ran, run⟩ := Run.bind_eq_some_iff.1 run
  cases first with
  | failed _ => cases run
  | interrupted _ =>
    obtain ⟨others, e₂, _, finish⟩ := Run.bind_eq_some_iff.1 run
    cases others <;> cases finish
  | ready value =>
    obtain ⟨others, e₂, ranRest, finish⟩ := Run.bind_eq_some_iff.1 run
    cases others with
    | ready rest =>
      cases finish
      exact ⟨value, rest, e₁, rfl, ran, ranRest⟩
    | interrupted _ | failed _ => cases finish

theorem read_eq (signal : Ref) (e : Engine σ) :
    read signal e = some (e.outcome signal,
      { e with foreign := (e.signalOutcome signal).2 }.note (.read signal (e.outcome signal))) :=
  rfl

/-- A signal is read, and what it was found to be is written down. -/
theorem evaluate_signal_ready {binding : SignalBinding} {value : Value}
    (run : Expr.evaluate read (.signal binding) e = some (.ready value, e')) :
    e.outcome binding.ref = .ready value ∧
      e'.journal = e.journal ++ [.read binding.ref (.ready value)] := by
  rw [Expr.evaluate, Expr.readChecked, Run.bind_apply, read_eq] at run
  simp only [Option.bind_some, Run.pure_apply, Option.some.injEq, Prod.mk.injEq] at run
  obtain ⟨checked, rfl⟩ := run
  cases outcome : e.outcome binding.ref with
  | interrupted _ | failed _ =>
    rw [outcome] at checked
    cases checked
  | ready found =>
    rw [outcome] at checked
    simp only [Outcome.andThen] at checked
    cases valid : binding.definition.result.validate found with
    | error _ =>
      rw [valid] at checked
      cases checked
    | ok _ =>
      rw [valid] at checked
      cases checked
      exact ⟨rfl, rfl⟩

/-- Names and values as they come to be written by a call: the name is a proper one, or a signal has
just been read to be it. -/
theorem written_of_namesSignal {call : Call} (names : call.NamesSignal)
    (sets : call.binding.ref.name = Globals.setAction) {name : String} {value : Value}
    (run : Expr.arguments read call e = some (.ready [.string name, value], e')) :
    value.type = .number ∧ (Globals.isName name ∨ ∃ signal events,
      e.outcome signal = .ready (.string name) ∧ (∀ event ∈ events, event.isAside) ∧
        e'.journal = e.journal ++ .read signal (.ready (.string name)) :: events) := by
  obtain ⟨definition, nameArg, valueArg, args, given⟩ := names sets
  rw [Expr.arguments, args, definition] at run
  obtain ⟨outcome, e₁, ran, finish⟩ := Run.bind_eq_some_iff.1 run
  cases outcome with
  | interrupted _ | failed _ => cases finish
  | ready values =>
    have values_eq : values = [.string name, value] ∧ e₁ = e' ∧ value.type = .number := by
      simp only [Outcome.andThen] at finish
      cases valid : Expr.validateAll Globals.setDefinition.arguments values with
      | error _ =>
        rw [valid] at finish
        cases finish
      | ok _ =>
        rw [valid] at finish
        cases finish
        refine ⟨rfl, rfl, ?_⟩
        cases value with
        | number _ => rfl
        | string _ => cases valid
    obtain ⟨rfl, rfl, isNumber⟩ := values_eq
    refine ⟨isNumber, ?_⟩
    obtain ⟨_, _, e₂, same, ranFirst, ranRest⟩ := evaluateAll_cons_ready ran
    cases same
    rcases given with ⟨text, rfl, isName⟩ | ⟨binding, rfl⟩
    · rw [Expr.evaluate] at ranFirst
      cases ranFirst
      exact .inl isName
    · obtain ⟨outcome, journal⟩ := evaluate_signal_ready ranFirst
      obtain ⟨_, _, evaluated, ⟨_, events, asides, rfl⟩, _⟩ := evaluateAll_run [valueArg] e₂
      cases evaluated.symm.trans ranRest
      refine .inr ⟨binding.ref, events, outcome, asides, ?_⟩
      simp [journal]

/-! ## Where names come from -/

/-- A device has given the name as the value of a signal, and an action then wrote to it. -/
def Hearsay (e : Engine σ) (name : String) : Prop :=
  ∃ before between after signal host value,
    e.journal = before ++ .read signal (.ready (.string name)) :: between ++
      .called ⟨Globals.setAction, host⟩ [.string name, value] :: after ∧
    (∀ event ∈ between, event.isAside) ∧
    ∃ device ∈ e.devices, providerName? signal.name = some device.name

theorem Hearsay.mono {name : String} (hearsay : e.Hearsay name)
    (journal : e.journal <+: e'.journal) (devices : e.devices ⊆ e'.devices) :
    e'.Hearsay name := by
  obtain ⟨before, between, after, signal, host, value, same, asides, device, member, isName⟩ :=
    hearsay
  obtain ⟨events, journal⟩ := journal
  refine ⟨before, between, after ++ events, signal, host, value, ?_, asides, device,
    devices member, isName⟩
  simp [← journal, same]

/-- The stored values are numbers, and the names are proper ones unless a device gave them. -/
structure Vouched (e : Engine σ) : Prop where
  stored : ∀ entry ∈ e.globals.values, entry.2.type = .number ∧
    (Globals.isName entry.1 ∨ e.Hearsay entry.1)
  actions : ∀ {id rule}, e.rule? id = some rule → rule.action.NamesSignal

theorem name_of_provider {name : String} {device : Device σ}
    (known : e.provider name = .ok (.device device)) : providerName? name = some device.name := by
  unfold provider at known
  split at known
  · cases known
  · rename_i key isKey
    split at known
    · cases known
    · split at known
      · cases known
      · split at known
        · rename_i found
          cases known
          have named := List.find?_some found
          simp only [decide_eq_true_eq] at named
          rw [isKey, named]
        · cases known

/-- As long as only numbers are stored, all texts come from devices. -/
theorem device_of_text {signal : Ref} {text : String} (vouched : e.Vouched)
    (outcome : e.outcome signal = .ready (.string text)) :
    ∃ device ∈ e.devices, providerName? signal.name = some device.name := by
  cases known : e.provider signal.name with
  | error _ =>
    simp only [Engine.outcome, signalOutcome, known] at outcome
    cases outcome
  | ok provider =>
    cases provider with
    | device device => exact ⟨device, device_mem known, name_of_provider known⟩
    | diagnostics =>
      simp only [Engine.outcome, signalOutcome, known] at outcome
      split at outcome <;> cases outcome
    | globals =>
      simp only [Engine.outcome, signalOutcome, known] at outcome
      split at outcome
      · rename_i name _
        unfold Globals.outcome at outcome
        split at outcome
        · rename_i found
          cases outcome
          obtain ⟨before, after, same, _⟩ := List.lookup_eq_some_iff.1 found
          have stored := vouched.stored (name, .string text) (by simp [same])
          cases stored.1
        · cases outcome
      · cases outcome

end Engine

theorem Globals.mem_write {name : String} {value : Value} {entry : String × Value}
    {entries : List (String × Value)} (member : entry ∈ write name value entries) :
    entry = (name, value) ∨ entry ∈ entries := by
  induction entries with
  | nil => exact .inl (List.mem_singleton.1 member)
  | cons first rest ih =>
    rw [write] at member
    split at member
    · exact (List.mem_cons.1 member).imp_right (.tail _)
    · rcases List.mem_cons.1 member with rfl | inRest
      · exact .inr List.mem_cons_self
      · exact (ih inRest).imp_right (.tail _)

namespace Engine

variable {σ α : Type} {e e' : Engine σ} {host : HostId}

namespace Vouched

theorem of_same (vouched : e.Vouched) (globals : e'.globals = e.globals)
    (devices : e.devices ⊆ e'.devices) (journal : e.journal <+: e'.journal)
    (rules : Keeps e' e) : e'.Vouched where
  stored entry member := by
    obtain ⟨isNumber, named⟩ := vouched.stored entry (globals ▸ member)
    exact ⟨isNumber, named.imp_right fun hearsay => hearsay.mono journal devices⟩
  actions := by
    intro id rule found
    obtain ⟨old, was, parts⟩ := rules id rule found
    have sameAction := congrArg Rule.action parts
    have same : old.action = rule.action := sameAction
    rw [← same]
    exact vouched.actions was

theorem put {name : String} {value : Value} (vouched : e.Vouched) (isNumber : value.type = .number)
    (named : Globals.isName name ∨ e.Hearsay name) :
    Vouched { e with globals := e.globals.put name value } where
  stored entry member := by
    rcases Globals.mem_write member with rfl | old
    · exact ⟨isNumber, named⟩
    · exact vouched.stored entry old
  actions := vouched.actions

theorem grown (vouched : e.Vouched) (globals : e'.globals = e.globals)
    (devices : e'.devices = e.devices) (listeners : e'.listeners = e.listeners)
    (journal : e.journal <+: e'.journal) : e'.Vouched := by
  apply vouched.of_same globals _ journal (.of_listeners listeners.symm)
  rw [devices]
  intro device member
  exact member

theorem aside (vouched : e.Vouched) (aside : Aside e e') : e'.Vouched := by
  obtain ⟨_, _, _, rfl⟩ := aside
  exact vouched.grown rfl rfl rfl (List.prefix_append _ _)

/-- After a call has evaluated its arguments, the name that it writes is a proper one or comes from
a device. -/
theorem written {call : Call} {name : String} {value : Value} (vouched : e.Vouched)
    (names : call.NamesSignal) (sets : call.binding.ref.name = Globals.setAction)
    (run : Expr.arguments read call e = some (.ready [.string name, value], e'))
    (called : (e'.note (.called call.binding.ref [.string name, value])).Vouched) :
    Vouched { e'.note (.called call.binding.ref [.string name, value]) with
      globals := e'.globals.put name value } := by
  obtain ⟨isNumber, named⟩ := written_of_namesSignal names sets run
  obtain ⟨_, _, evaluated, aside, _⟩ := arguments_run call e
  cases evaluated.symm.trans run
  refine called.put isNumber ?_
  rcases named with isName | ⟨signal, events, outcome, asides, journal⟩
  · exact .inl isName
  · obtain ⟨device, member, isDevice⟩ := device_of_text vouched outcome
    have isSet : call.binding.ref = ⟨Globals.setAction, call.binding.ref.host⟩ := by
      rw [← sets]
    refine .inr ⟨e.journal, events, [], signal, call.binding.ref.host, value, ?_, asides, device,
      aside.devices ▸ member, isDevice⟩
    simp [note, journal, ← isSet]

theorem invariant : Invariant (fun _ => True) Call.NamesSignal (Vouched (σ := σ)) where
  aside := Vouched.aside
  rewired vouched rewired := by
    obtain ⟨_, _, _, _, _, rfl⟩ := rewired
    exact vouched.grown rfl rfl rfl (List.prefix_append _ _)
  dispatched vouched _ := vouched.grown rfl rfl rfl (List.prefix_append _ _)
  advanced vouched := vouched.grown rfl rfl rfl (List.prefix_refl _)
  fired vouched _ := vouched.grown rfl rfl rfl (List.prefix_append _ _)
  set vouched isName := vouched.put rfl (.inl isName)
  action vouched found := vouched.actions found
  modified := by
    intro e id f vouched _ parts
    refine vouched.of_same ?_ ?_ ?_ (.from_modifyRule parts e id)
    · rw [modifyRule_eq]
    · simp only [devices_modifyRule, List.Subset.refl]
    · simp only [journal_modifyRule, List.prefix_refl]
  written vouched names sets run called := vouched.written names sets run called

end Vouched

/-! ## Sessions -/

/-- What a host application can bring an engine to by scripts and by writes of its own. The scripts
of rules and of calls that it performs may have been compiled anywhere; devices, foreign listeners
and programs may be anything. -/
inductive Scripted : Engine σ → Prop where
  | create (config : Config) (foreign : σ) : Scripted (create config foreign)
  | register {e e' : Engine σ} {device : Device σ} :
    Scripted e → e.register device = .ok e' → Scripted e'
  | external {e : Engine σ} (name : String)
      (respond : String → Program σ (Except ScriptError Unit)) :
    Scripted e → Scripted (e.addListener (.external name respond)).2
  | rule {e e₀ : Engine σ} {host : HostId} {script : String} {rule : Rule} :
    Scripted e → (e₀.scope host).parseCall script = .ok rule.action →
      Scripted (e.addListener (.rule rule)).2
  | program {e e' : Engine σ} {α : Type} {depth : Nat} {program : Program σ α} {a : α} :
    Scripted e → runProgram (handle depth) program e = some (a, e') → Scripted e'
  | read {e e' : Engine σ} {signal : Ref} {outcome : Outcome Value} :
    Scripted e → read signal e = some (outcome, e') → Scripted e'
  | execute {e e₀ e' : Engine σ} {host : HostId} {depth : Nat} {script : String} {call : Call}
      {outcome : Outcome Expr.Completion} :
    Scripted e → (e₀.scope host).parseCall script = .ok call →
      performCall (handle depth) call e = some (outcome, e') → Scripted e'

theorem Vouched.listen (vouched : e.Vouched) {listener : Listener σ}
    (names : ∀ rule, listener = .rule rule → rule.action.NamesSignal) :
    Vouched (e.addListener listener).2 := by
  refine ⟨vouched.stored, ?_⟩
  intro id rule found
  have known := listener?_eq_of_rule? found
  rw [listener?_addListener] at known
  split at known
  · exact names rule (Option.some.inj known)
  · exact vouched.actions (rule?_eq_of_listener? known)

theorem Scripted.vouched (scripted : Scripted e) : e.Vouched := by
  have kept (depth : Nat) (request : Request) :
      Maintains Vouched (handle (σ := σ) depth request) := by
    have all : handleWithin (fun _ => True) depth = handle (σ := σ) depth :=
      handleWithin_eq_handle (fun _ => trivial) depth
    rw [← all]
    exact Vouched.invariant.handleWithin depth request
  induction scripted with
  | create config foreign =>
    refine ⟨?_, ?_⟩
    · intro entry member
      cases member
    · intro id rule found
      rw [rule?_create] at found
      cases found
  | @register e e' device _ registered vouched =>
    unfold Engine.register at registered
    split at registered
    · cases registered
    · cases registered
      have more : e.devices ⊆ e.devices ++ [device] := List.subset_append_left _ _
      exact vouched.of_same rfl more (List.prefix_refl _) (.of_listeners rfl)
  | external _ _ _ vouched =>
    refine vouched.listen ?_
    rintro _ ⟨⟩
  | rule _ parsed vouched =>
    refine vouched.listen ?_
    rintro _ ⟨⟩
    exact namesSignal_of_parseCall parsed
  | program _ ran vouched =>
    exact Vouched.invariant.runProgram (kept _) _ _ _ _ vouched ran
  | @read e e' signal _ _ ran vouched =>
    obtain ⟨_, evaluated, aside⟩ := read_run signal e
    cases evaluated.symm.trans ran
    exact vouched.aside aside
  | execute _ parsed ran vouched =>
    exact Vouched.invariant.performCall (kept _) (namesSignal_of_parseCall parsed) _ _ _ vouched ran

/-! ## What names are good for -/

theorem localName_fullName (name : String) :
    Globals.localName (Globals.fullName name) =
      if Globals.isName name then .ok name
      else .error (.lookup (.globalSignal (Globals.fullName name))) := by
  have starts : (Globals.fullName name).toList = "Signals.".toList ++ name.toList :=
    String.toList_append
  have rest : String.ofList ((Globals.fullName name).toList.drop 8) = name := by
    rw [starts, List.drop_left' (by decide), String.ofList_toList]
  unfold Globals.localName
  rw [if_pos (by simp [starts]), rest]

theorem provider_fullName (e : Engine σ) (name : String) :
    e.provider (Globals.fullName name) = .ok .globals := by
  have starts : (Globals.fullName name).toList = "Signals.".toList ++ name.toList :=
    String.toList_append
  have key : providerName? (Globals.fullName name) = some Globals.providerName := by
    unfold providerName?
    rw [starts]
    simp [Globals.providerName]
  simp [provider, key]

/-- In sessions with scripts all stored values are numbers, and a name that is stored is a proper
one or comes from a device. What is stored under a name is a signal exactly if it is a proper one:
then there is a definition, and listeners can subscribe. -/
theorem scripted_names_vouched (scripted : Scripted e) :
    (∀ entry ∈ e.globals.values, entry.2.type = .number ∧
      (Globals.isName entry.1 ∨ e.Hearsay entry.1)) ∧
    ∀ name ∈ e.globals.names, ∀ host,
      ((∃ d, e.signalDef ⟨Globals.fullName name, host⟩ = .ok d) ↔ Globals.isName name) ∧
      ∀ listener, (∃ e', subscribe ⟨Globals.fullName name, host⟩ listener e = some (.ok (), e')) ↔
        Globals.isName name := by
  refine ⟨scripted.vouched.stored, fun name _ host => ⟨?_, fun listener => ?_⟩⟩
  · simp only [signalDef, provider_fullName, Globals.definition, localName_fullName]
    split <;> simp_all [Except.map]
  · rw [subscribe]
    simp only [Run.get_bind_apply, checkSubscribe, provider_fullName, localName_fullName]
    split <;> simp_all [Except.map]

/-! ## A text panel -/

/-- A device that shows a text. -/
def panel (text : String) : Device Unit where
  name := "Panel"
  signalNames _ _ := ["Panel.Text"]
  signal _ _ := .ok { name := "Panel.Text", display := "Text", result := .string }
  source _ _ := .ok ()
  subscribe _ _ := .ok ()
  read _ s := (.ready (.string text), s)
  actionNames _ _ := []
  action ref _ := .error (.lookup (.unknownAction ref.name))
  executor ref _ := .error (.lookup (.unknownAction ref.name))
  perform ref _ := .finish (.failed (.lookup (.unknownAction ref.name)))
  install _ s := (.ok (), s)
  uninstall _ s := s

def withPanel (text : String) : Engine Unit :=
  { create {} () with devices := [panel text] }

theorem scripted_withPanel (text : String) : Scripted (withPanel text) := by
  have new : (panel text).name ∉ (create {} ()).providerNames := by
    simp [providerNames, sortTexts, create, panel, Globals.providerName, Diagnostics.providerName]
  exact (Scripted.create {} ()).register (if_neg new)

/-- A call that writes to what the panel shows has been performed. -/
def paneled (text : String) : Engine Unit :=
  match ((withPanel text).scope ⟨1⟩).parseCall "(act Signals.Set (sig Panel.Text) 100)" with
  | .error _ => withPanel text
  | .ok call =>
    match performCall (handle 3) call (withPanel text) with
    | none => withPanel text
    | some (_, e) => e

theorem scripted_paneled (text : String) : Scripted (paneled text) := by
  have scripted := scripted_withPanel text
  unfold paneled
  split
  · exact scripted
  · rename_i parsed
    split
    · exact scripted
    · rename_i ran
      exact scripted.execute parsed ran

/-- What the panel shows is no name, but it is stored as one, and nobody can listen to it. -/
theorem scripted_names_vouched_of_panel :
    Scripted (paneled "no spaces") ∧ (paneled "no spaces").globals.names = ["no spaces"] ∧
      (paneled "no spaces").Hearsay "no spaces" ∧ ∀ host listener e',
        subscribe ⟨"Signals.no spaces", host⟩ listener (paneled "no spaces") ≠
          some (.ok (), e') := by
  have scripted := scripted_paneled "no spaces"
  have names : (paneled "no spaces").globals.names = ["no spaces"] := by
    decide +kernel
  obtain ⟨stored, known⟩ := scripted_names_vouched scripted
  have improper : Globals.isName "no spaces" = false := by
    decide +kernel
  refine ⟨scripted, names, ?_, fun host listener e' subscribed => ?_⟩
  · obtain ⟨⟨name, value⟩, member, same⟩ : ∃ entry ∈ (paneled "no spaces").globals.values,
        entry.1 = "no spaces" := by
      have member : "no spaces" ∈ (paneled "no spaces").globals.names := by simp [names]
      simpa [Globals.names] using member
    simp only at same
    subst same
    exact (stored _ member).2.resolve_left (by simp [improper])
  · have proper := ((known "no spaces" (by simp [names]) host).2 listener).1 ⟨e', subscribed⟩
    simp [improper] at proper

/-- Not every name that is stored is a proper one. -/
theorem not_names_proper : ¬ ∀ e : Engine Unit, Scripted e →
    ∀ entry ∈ e.globals.values, entry.2.type = .number ∧ Globals.isName entry.1 := by
  intro all
  have proper := all (paneled "no spaces") (scripted_paneled "no spaces")
  revert proper
  decide +kernel

end Engine

end SignalRules
