import SignalRules.Proofs.Ending
import SignalRules.Proofs.Setups
import SignalRules.Proofs.WellFormed

/-! # The signals of a condition

A condition lists the names of the signals in it. A rule listens to these signals only, so it is
deaf to whatever else its condition should depend on. Here the list is held against the tree, place
by place, against evaluation, in two engines side by side, and against what activation subscribes a
rule to.
-/

namespace SignalRules

namespace Tree

variable {S A : Type}

/-- The signal stands at this place. A place is the way down from the root, a number for each
operand or argument that is entered. -/
inductive SignalAt : Tree S A → List Nat → S → Prop where
  | leaf (binding : S) : SignalAt (.signal binding) [] binding
  | operand {op : Operator} {operands : List (Tree S A)} {n : Nat} {tree : Tree S A}
      {place : List Nat} {binding : S} :
    operands[n]? = some tree → SignalAt tree place binding →
      SignalAt (.operator op operands) (n :: place) binding
  | argument {once : Bool} {action : A} {args : List (Tree S A)} {n : Nat} {tree : Tree S A}
      {place : List Nat} {binding : S} :
    args[n]? = some tree → SignalAt tree place binding →
      SignalAt (.action once action args) (n :: place) binding

mutual

/-- The signals that occur, from left to right, with their places. -/
def placed : Tree S A → List (List Nat × S)
  | .constant _ => []
  | .signal binding => [([], binding)]
  | .operator _ operands => placedAll 0 operands
  | .action _ _ args => placedAll 0 args

/-- The numbers of the trees start from this one. -/
def placedAll (n : Nat) : List (Tree S A) → List (List Nat × S)
  | [] => []
  | tree :: trees => (placed tree).map (fun (place, binding) => (n :: place, binding)) ++
    placedAll (n + 1) trees

end

mutual

theorem map_snd_placed : ∀ tree : Tree S A, tree.placed.map Prod.snd = tree.signals
  | .constant _ | .signal _ => rfl
  | .operator _ operands => map_snd_placedAll 0 operands
  | .action _ _ args => map_snd_placedAll 0 args

theorem map_snd_placedAll (n : Nat) : ∀ trees : List (Tree S A),
    (placedAll n trees).map Prod.snd = signalsAll trees
  | [] => rfl
  | tree :: trees => by
    rw [placedAll, signalsAll, List.map_append, List.map_map, map_snd_placedAll,
      ← map_snd_placed tree]
    rfl

end

theorem mem_placedAll {place : List Nat} {binding : S} {n : Nat} {trees : List (Tree S A)} :
    (place, binding) ∈ placedAll n trees ↔ ∃ m tree rest, trees[m]? = some tree ∧
      place = (n + m) :: rest ∧ (rest, binding) ∈ placed tree := by
  induction trees generalizing n with
  | nil => simp [placedAll]
  | cons first trees ih =>
    rw [placedAll, List.mem_append, List.mem_map, ih]
    constructor
    · rintro (⟨⟨rest, _⟩, member, same⟩ | ⟨m, tree, rest, found, rfl, member⟩)
      · obtain ⟨rfl, rfl⟩ := Prod.mk.inj same
        exact ⟨0, first, rest, rfl, rfl, member⟩
      · exact ⟨m + 1, tree, rest, found, by rw [Nat.add_right_comm]; rfl, member⟩
    · rintro ⟨m, tree, rest, found, rfl, member⟩
      cases m with
      | zero =>
        cases found
        exact .inl ⟨(rest, binding), member, rfl⟩
      | succ m => exact .inr ⟨m, tree, rest, found, by rw [Nat.add_right_comm]; rfl, member⟩

mutual

theorem signalAt_of_placed : ∀ {tree : Tree S A} {place : List Nat} {binding : S},
    (place, binding) ∈ placed tree → SignalAt tree place binding
  | .constant _, _, _, member => by cases member
  | .signal binding, _, _, member => by
    cases List.mem_singleton.1 member
    exact .leaf binding
  | .operator _ operands, _, _, member => by
    obtain ⟨m, tree, rest, found, rfl, inside⟩ := mem_placedAll.1 member
    rw [Nat.zero_add]
    exact .operand found (signalAt_of_placedAll operands found inside)
  | .action _ _ args, _, _, member => by
    obtain ⟨m, tree, rest, found, rfl, inside⟩ := mem_placedAll.1 member
    rw [Nat.zero_add]
    exact .argument found (signalAt_of_placedAll args found inside)

theorem signalAt_of_placedAll : ∀ (trees : List (Tree S A)) {n : Nat} {tree : Tree S A}
    {place : List Nat} {binding : S}, trees[n]? = some tree → (place, binding) ∈ placed tree →
      SignalAt tree place binding
  | first :: _, 0, tree, _, _, found, member => by
    cases (Option.some.inj found : first = tree)
    exact signalAt_of_placed member
  | _ :: trees, _ + 1, _, _, _, found, member => signalAt_of_placedAll trees found member

end

theorem mem_placed {tree : Tree S A} {place : List Nat} {binding : S} :
    (place, binding) ∈ tree.placed ↔ SignalAt tree place binding := by
  refine ⟨signalAt_of_placed, fun at' => ?_⟩
  induction at' with
  | leaf binding => exact List.mem_singleton.2 rfl
  | @operand _ _ n _ place _ found _ ih | @argument _ _ _ n _ place _ found _ ih =>
    exact mem_placedAll.2 ⟨n, _, place, found, by rw [Nat.zero_add], ih⟩

mutual

/-- From left to right, places come one before the other. -/
theorem placed_inOrder : ∀ tree : Tree S A,
    tree.placed.Pairwise fun first second => first.1 < second.1
  | .constant _ => .nil
  | .signal _ => List.pairwise_singleton _ _
  | .operator _ operands => placedAll_inOrder 0 operands
  | .action _ _ args => placedAll_inOrder 0 args

theorem placedAll_inOrder (n : Nat) : ∀ trees : List (Tree S A),
    (placedAll n trees).Pairwise fun first second => first.1 < second.1
  | [] => .nil
  | tree :: trees => by
    refine List.pairwise_append.2 ⟨List.pairwise_map.2 ?_, placedAll_inOrder (n + 1) trees, ?_⟩
    · exact (placed_inOrder tree).imp fun earlier => List.cons_lt_cons_iff.2 (.inr ⟨rfl, earlier⟩)
    · rintro _ inFirst ⟨place, binding⟩ inRest
      obtain ⟨⟨place', _⟩, _, rfl⟩ := List.mem_map.1 inFirst
      obtain ⟨m, _, rest, _, rfl, _⟩ := mem_placedAll.1 inRest
      exact List.cons_lt_cons_iff.2 (.inl (by omega))

end

theorem SignalAt.mem_subtrees {tree : Tree S A} {place : List Nat} {binding : S}
    (at' : SignalAt tree place binding) : .signal binding ∈ tree.subtrees := by
  induction at' with
  | leaf binding => exact mem_subtrees_self _
  | operand found _ ih | argument found _ ih =>
    exact .tail _ (mem_subtreesAll.2 ⟨_, List.mem_of_getElem? found, ih⟩)

end Tree

/-- Where elements stand in order, the names that are left without repetition stand in the order of
the first elements that have them. -/
theorem eraseDups_inOrder {α β : Type} [DecidableEq β] {R : α → α → Prop} (name : α → β) :
    ∀ {items : List α}, items.Pairwise R → (items.map name).eraseDups.Pairwise fun first second =>
      first ≠ second ∧ ∀ y ∈ items, name y = second → ∃ x ∈ items, name x = first ∧ R x y
  | [], _ => .nil
  | item :: items, ordered => by
    obtain ⟨isFirst, ordered⟩ := List.pairwise_cons.1 ordered
    -- the names after the first are those of the elements that do not have it
    have inOrder := eraseDups_inOrder name (ordered.filter fun other => !name other == name item)
    have rest : (items.map name).filter (fun other => !other == name item) =
        (items.filter fun other => !name other == name item).map name :=
      List.filter_map
    rw [List.map_cons, List.eraseDups_cons, rest]
    have other {second : β} (later : second ∈
        ((items.filter fun other => !name other == name item).map name).eraseDups) :
        ∀ y ∈ item :: items, name y = second → name y ≠ name item ∧ y ∈ items := by
      rintro y member rfl
      obtain ⟨z, inside, same⟩ := List.mem_map.1 (List.mem_eraseDups.1 later)
      have apart : name y ≠ name item := by
        rw [← same]
        simpa using (List.mem_filter.1 inside).2
      refine ⟨apart, (List.mem_cons.1 member).resolve_left ?_⟩
      rintro rfl
      exact apart rfl
    refine List.pairwise_cons.2 ⟨fun second later => ⟨?_, ?_⟩, inOrder.imp_of_mem ?_⟩
    · obtain ⟨z, inside, rfl⟩ := List.mem_map.1 (List.mem_eraseDups.1 later)
      have apart : name z ≠ name item := by simpa using (List.mem_filter.1 inside).2
      exact apart.symm
    · intro y member same
      exact ⟨item, List.mem_cons_self, rfl, isFirst y (other later y member same).2⟩
    · rintro first second _ later ⟨apart, earlier⟩
      refine ⟨apart, fun y member same => ?_⟩
      obtain ⟨unlike, member⟩ := other later y member same
      obtain ⟨x, inside, named, before⟩ :=
        earlier y (List.mem_filter.2 ⟨member, by simpa using unlike⟩) same
      exact ⟨x, .tail _ (List.mem_filter.1 inside).1, named, before⟩
termination_by items => items.length
decreasing_by exact Nat.lt_succ_of_le (List.length_filter_le _ _)

namespace Expr

theorem signalNames_eq (expr : Expr) :
    expr.signalNames = (expr.placed.map fun placed => placed.2.ref.name).eraseDups := by
  rw [signalNames, Term.signalNames, term, signals_map, ← Tree.map_snd_placed, List.map_map,
    List.map_map]
  rfl

theorem mem_signalNames_iff {expr : Expr} {name : String} : name ∈ expr.signalNames ↔
    ∃ place binding, Tree.SignalAt expr place binding ∧ binding.ref.name = name := by
  simp only [signalNames_eq, List.mem_eraseDups, List.mem_map, Prod.exists, Tree.mem_placed]

/-- Names stand in the order of the first places where they occur. -/
theorem signalNames_inOrder (expr : Expr) : expr.signalNames.Pairwise fun first second =>
    first ≠ second ∧ ∀ place binding, Tree.SignalAt expr place binding →
      binding.ref.name = second → ∃ place' binding', Tree.SignalAt expr place' binding' ∧
        binding'.ref.name = first ∧ place' < place := by
  rw [signalNames_eq]
  refine (eraseDups_inOrder _ (Tree.placed_inOrder expr)).imp fun {first second} => ?_
  refine And.imp_right fun earlier place binding at' named => ?_
  obtain ⟨⟨place', binding'⟩, member, named', before⟩ :=
    earlier (place, binding) (Tree.mem_placed.2 at') named
  exact ⟨place', binding', Tree.mem_placed.1 member, named', before⟩

end Expr

namespace Engine

variable {σ τ α β : Type}

/-! ## Two engines side by side -/

/-- In two engines that are related, the runs have the same result, and lead to two that are related
again. -/
def InStep (R : Engine σ → Engine τ → Prop) (run : Run σ α) (run' : Run τ α) : Prop :=
  ∀ e f, R e f → ∃ a e' f', run e = some (a, e') ∧ run' f = some (a, f') ∧ R e' f'

namespace InStep

variable {R : Engine σ → Engine τ → Prop}

theorem pure (a : α) : InStep R (pure a) (pure a) :=
  fun e f related => ⟨a, e, f, rfl, rfl, related⟩

theorem bind {x : Run σ α} {y : Run τ α} {g : α → Run σ β} {h : α → Run τ β}
    (first : InStep R x y) (rest : ∀ a, InStep R (g a) (h a)) : InStep R (x >>= g) (y >>= h) := by
  intro e f related
  obtain ⟨a, e₁, f₁, ran, ran', related⟩ := first e f related
  obtain ⟨b, e₂, f₂, runs, runs', related⟩ := rest a e₁ f₁ related
  exact ⟨b, e₂, f₂, Run.bind_eq_some_iff.2 ⟨a, e₁, ran, runs⟩,
    Run.bind_eq_some_iff.2 ⟨a, f₁, ran', runs'⟩, related⟩

mutual

/-- If the signals in an expression read the same, it evaluates to the same. -/
theorem evaluate : ∀ {expr : Expr},
    (∀ binding ∈ expr.signals, InStep R (read binding.ref) (read binding.ref)) →
      InStep R (expr.evaluate read) (expr.evaluate read)
  | .constant _, _ => by
    simp only [Expr.evaluate]
    exact pure _
  | .signal binding, reads => by
    simp only [Expr.evaluate, Expr.readChecked]
    exact bind (reads binding List.mem_cons_self) fun _ => pure _
  | .operator _ operands, reads => by
    have values : InStep R (Expr.evaluateAll read operands) (Expr.evaluateAll read operands) :=
      evaluateAll reads
    simp only [Expr.evaluate]
    exact bind values fun _ => pure _
  | .action _ _ _, _ => by
    simp only [Expr.evaluate]
    exact pure _

theorem evaluateAll : ∀ {exprs : List Expr},
    (∀ binding ∈ Tree.signalsAll exprs, InStep R (read binding.ref) (read binding.ref)) →
      InStep R (Expr.evaluateAll read exprs) (Expr.evaluateAll read exprs)
  | [], _ => by
    simp only [Expr.evaluateAll]
    exact pure _
  | expr :: exprs, reads => by
    simp only [Tree.signalsAll, List.mem_append] at reads
    have rest : InStep R (Expr.evaluateAll read exprs) (Expr.evaluateAll read exprs) :=
      evaluateAll fun binding member => reads binding (.inr member)
    simp only [Expr.evaluateAll]
    refine bind (evaluate fun binding member => reads binding (.inl member)) fun outcome => ?_
    cases outcome with
    | failed _ => exact pure _
    | interrupted _ =>
      refine bind rest fun outcomes => ?_
      cases outcomes <;> exact pure _
    | ready _ => exact bind rest fun _ => pure _

end

end InStep

/-- Reading the signal leaves the providers as they are. -/
def Still (e : Engine σ) (signal : Ref) : Prop :=
  (e.signalOutcome signal).2 = e.foreign

/-- As it was, but for the journal. -/
def Noted (e e' : Engine σ) : Prop :=
  ∃ journal, e' = { e with journal }

theorem Noted.read {e e' : Engine σ} (noted : Noted e e') {signal : Ref} (still : e.Still signal) :
    ∃ e'', Engine.read signal e' = some (e.outcome signal, e'') ∧ Noted e e'' := by
  obtain ⟨journal, rfl⟩ := noted
  refine ⟨_, rfl, journal ++ [.read signal (e.outcome signal)], ?_⟩
  exact congrArg (fun foreign => { e with
    foreign, journal := journal ++ [Event.read signal (e.outcome signal)] }) still

/-- Signals that leave the providers as they are read the same as long as nothing else happens. -/
theorem inStep_of_outcome_eq {e : Engine σ} {f : Engine τ} {signal : Ref} (still : e.Still signal)
    (still' : f.Still signal) (same : e.outcome signal = f.outcome signal) :
    InStep (fun e' f' => Noted e e' ∧ Noted f f') (read signal) (read signal) := by
  rintro e' f' ⟨noted, noted'⟩
  obtain ⟨e'', ran, noted⟩ := noted.read still
  obtain ⟨f'', ran', noted'⟩ := noted'.read still'
  exact ⟨_, e'', f'', ran, same ▸ ran', noted, noted'⟩

/-! ## What rules listen to -/

section

variable {e e₁ e₂ e' : Engine σ} {id : ListenerId} {rule : Rule} {error : ScriptError}
  (found : e.rule? id = some rule) (inactive : rule.state = .inactive)

include found inactive

theorem activate_of_not_installed
    (installs : install (some id) rule.actionRef e = some (.error error, e'))
    (handler : Handler σ) : activate handler id e = some (.error error, e') := by
  rw [activate, Run.get_bind_apply, found]
  simp only [if_neg (Decidable.not_not.2 inactive)]
  exact Run.bind_eq_some_iff.2 ⟨_, _, installs, rfl⟩

theorem activate_of_not_subscribed {done : Unit}
    (installs : install (some id) rule.actionRef e = some (.ok (), e₁))
    (subscribes : forEach (fun signal => subscribe signal id) rule.signals e₁ =
      some (.error error, e₂))
    (detaches : detach id rule e₂ = some (done, e')) (handler : Handler σ) :
    activate handler id e = some (.error error, e') := by
  rw [activate, Run.get_bind_apply, found]
  simp only [if_neg (Decidable.not_not.2 inactive)]
  exact Run.bind_eq_some_iff.2 ⟨_, _, installs, Run.bind_eq_some_iff.2 ⟨_, _, subscribes,
    Run.bind_eq_some_iff.2 ⟨_, _, detaches, rfl⟩⟩⟩

theorem activate_of_subscribed
    (installs : install (some id) rule.actionRef e = some (.ok (), e₁))
    (subscribes : forEach (fun signal => subscribe signal id) rule.signals e₁ = some (.ok (), e₂))
    (handler : Handler σ) : activate handler id e = check handler id (e₂.start id) := by
  rw [activate, Run.get_bind_apply, found]
  simp only [if_neg (Decidable.not_not.2 inactive)]
  rw [Run.bind_apply, installs]
  change (forEach _ _ >>= _) e₁ = _
  rw [Run.bind_apply, subscribes]
  rfl

/-- Activation meets an obstacle and leaves the rule inactive, or comes to check the rule, and then
the rule has been subscribed to its signals and nobody to anything else. -/
theorem activate_listens :
    (∃ error e', Obstacle e id rule error ∧ e'.rule? id = some rule ∧
      ∀ handler, activate handler id e = some (.error error, e')) ∨
    ∃ e', (e'.rule? id).map Rule.state = some .active ∧
      (∀ handler, activate handler id e = check handler id e') ∧
      ∀ signal other, other ∈ e'.subscriptions.listeners signal ↔
        other ∈ e.subscriptions.listeners signal ∨ signal ∈ rule.signals ∧ other = id := by
  obtain ⟨installed, e₁, installs⟩ := Ends.install (some id) rule.actionRef e
  have still : e₁.rule? id = some rule := by
    obtain ⟨_, _, rfl⟩ := install_frame installs
    exact found
  cases installed with
  | error error =>
    exact .inl ⟨error, e₁, .install installs, still,
      activate_of_not_installed found inactive installs⟩
  | ok _ =>
    obtain ⟨subscribed, e₂, subscribes⟩ := Ends.subscribeAll rule.signals id e₁
    have stillToo : e₂.rule? id = some rule := by
      obtain ⟨_, rfl⟩ := subscribeAll_frame subscribes
      exact still
    cases subscribed with
    | error error =>
      obtain ⟨_, e₃, detaches⟩ := Ends.detach id rule e₂
      obtain ⟨before, signal, after, split, passed, refused⟩ :=
        exists_refusal_of_subscribeAll subscribes
      refine .inl ⟨error, e₃, .subscribe installs split passed refused, ?_,
        activate_of_not_subscribed found inactive installs subscribes detaches⟩
      obtain ⟨_, _, rfl⟩ := detach_frame detaches
      exact stillToo
    | ok _ =>
      refine .inr ⟨e₂.start id, ?_, activate_of_subscribed found inactive installs subscribes,
        fun signal other => ?_⟩
      · rw [start, rule?_modifyRule_self stillToo]
        rfl
      · cases subscribeAll_of_ok subscribes
        simp only [start, subscriptions_modifyRule, Subscriptions.mem_listeners_addAll,
          subscriptions_install installs]

end

end Engine

/-! ## Conditions -/

/-- The names that a condition lists stand for all that it has to do with. -/
structure Expr.Attuned (condition : Expr) (host : HostId) : Prop where
  once : condition.signalNames.Nodup
  listed : ∀ name, name ∈ condition.signalNames ↔
    ∃ place binding, Tree.SignalAt condition place binding ∧ binding.ref.name = name
  onHost : ∀ place binding, Tree.SignalAt condition place binding → binding.ref.host = host
  /-- Of two names, the first occurs before the second does for the first time. -/
  inOrder : condition.signalNames.Pairwise fun first second => ∀ place binding,
    Tree.SignalAt condition place binding → binding.ref.name = second →
      ∃ place' binding', Tree.SignalAt condition place' binding' ∧ binding'.ref.name = first ∧
        place' < place
  /-- If these signals have the same outcomes whenever they are read, so has the condition, however
  providers change when they are read. -/
  determined : ∀ {σ τ : Type} (R : Engine σ → Engine τ → Prop),
    (∀ name ∈ condition.signalNames,
      Engine.InStep R (Engine.read ⟨name, host⟩) (Engine.read ⟨name, host⟩)) →
        Engine.InStep R (condition.evaluate Engine.read) (condition.evaluate Engine.read)
  /-- If providers do not change when they are read, it is enough to compare the outcomes once. -/
  sameOutcome : ∀ {σ τ : Type} (e : Engine σ) (f : Engine τ),
    (∀ name ∈ condition.signalNames, e.Still ⟨name, host⟩ ∧ f.Still ⟨name, host⟩ ∧
      e.outcome ⟨name, host⟩ = f.outcome ⟨name, host⟩) →
        ∃ outcome e' f', condition.evaluate Engine.read e = some (outcome, e') ∧
          condition.evaluate Engine.read f = some (outcome, f')
  /-- A rule with the condition cannot be activated, since its action is not installed or one of
  these signals refuses it, or it is subscribed to these signals and to nothing else when it is
  checked for the first time. -/
  subscribed : ∀ {σ : Type} {e : Engine σ} {id : ListenerId} {rule : Rule},
    e.rule? id = some rule → rule.state = .inactive → rule.condition = condition →
    rule.host = host →
      (∃ error e', Engine.Obstacle e id rule error ∧ e'.rule? id = some rule ∧
        ∀ handler, Engine.activate handler id e = some (.error error, e')) ∨
      ∃ e', (e'.rule? id).map Rule.state = some .active ∧
        (∀ handler, Engine.activate handler id e = Engine.check handler id e') ∧
        ∀ signal other, other ∈ e'.subscriptions.listeners signal ↔
          other ∈ e.subscriptions.listeners signal ∨
            other = id ∧ signal.host = host ∧ signal.name ∈ condition.signalNames

namespace Scope

variable {scope : Scope} {script : String} {condition : Expr}

theorem host_of_parseCondition (parsed : scope.parseCondition script = .ok condition)
    {place : List Nat} {binding : SignalBinding} (at' : Tree.SignalAt condition place binding) :
    binding.ref.host = scope.host := by
  obtain ⟨expr, parsed, typed⟩ := Except.bind_eq_ok parsed
  obtain ⟨_, _, meant⟩ := means_of_parse parsed
  cases meant with
  | value meant =>
    split at typed <;> cases typed
    exact (meant.permits _ at'.mem_subtrees).host
  | call _ => cases typed

/-- Every condition that the compiler accepts lists the signals that it is determined by. -/
theorem parseCondition_attuned (parsed : scope.parseCondition script = .ok condition) :
    condition.Attuned scope.host := by
  have named : ∀ binding ∈ condition.signals, ∃ name ∈ condition.signalNames,
      binding.ref = ⟨name, scope.host⟩ := by
    intro binding member
    rw [← Tree.map_snd_placed, List.mem_map] at member
    obtain ⟨⟨place, _⟩, member, rfl⟩ := member
    have at' := Tree.mem_placed.1 member
    exact ⟨_, Expr.mem_signalNames_iff.2 ⟨place, _, at', rfl⟩,
      Ref.eq_of_same rfl (host_of_parseCondition parsed at')⟩
  have determined {σ τ : Type} (R : Engine σ → Engine τ → Prop)
      (reads : ∀ name ∈ condition.signalNames,
        Engine.InStep R (Engine.read ⟨name, scope.host⟩) (Engine.read ⟨name, scope.host⟩)) :
      Engine.InStep R (condition.evaluate Engine.read) (condition.evaluate Engine.read) := by
    refine .evaluate fun binding member => ?_
    obtain ⟨name, listed, same⟩ := named binding member
    rw [same]
    exact reads name listed
  have inOrder := condition.signalNames_inOrder
  exact
    { once := inOrder.imp And.left
      listed := fun _ => Expr.mem_signalNames_iff
      onHost := fun _ _ => host_of_parseCondition parsed
      inOrder := inOrder.imp And.right
      determined
      sameOutcome := by
        intro σ τ e f same
        obtain ⟨outcome, e', f', ran, ran', _⟩ := determined _ (fun name listed =>
          Engine.inStep_of_outcome_eq (same name listed).1 (same name listed).2.1
            (same name listed).2.2) e f ⟨⟨_, rfl⟩, ⟨_, rfl⟩⟩
        exact ⟨outcome, e', f', ran, ran'⟩
      subscribed := by
        rintro σ e id rule found inactive rfl onHost
        refine (Engine.activate_listens found inactive).imp_right ?_
        rintro ⟨e', active, checked, listens⟩
        refine ⟨e', active, checked, fun signal other => (listens signal other).trans ?_⟩
        rw [Rule.mem_signals, onHost, and_comm] }

theorem attuned_of_overtaking : ∃ condition : Expr,
    ((Engine.create {} ()).scope ⟨1⟩).parseCondition
        "(and (gt (sig Signals.B) (sig Signals.A)) (lt (sig Signals.B) (sig Debug.Ticker)))" =
      .ok condition ∧
    condition.signalNames = ["Signals.B", "Signals.A", "Debug.Ticker"] ∧
    condition.Attuned ⟨1⟩ := by
  have known : (((Engine.create {} ()).scope ⟨1⟩).parseCondition
      "(and (gt (sig Signals.B) (sig Signals.A)) (lt (sig Signals.B) (sig Debug.Ticker)))").map
        Expr.signalNames = .ok ["Signals.B", "Signals.A", "Debug.Ticker"] := by
    decide +kernel
  obtain ⟨condition, parsed, names⟩ := Except.map_eq_ok known
  exact ⟨condition, parsed, names, parseCondition_attuned parsed⟩

end Scope

end SignalRules
