import Mathlib.Data.List.Forall2
import SignalRules.Proofs.Meaning

/-! # Well-formed expressions

Nothing in the type of expressions keeps an action out of an operand, an operator from having a
wrong number of operands, or a constant from being none of the options of the signal beside it. The
compiler does, wherever in an expression they stand: later evaluation relies on it.
-/

namespace SignalRules

namespace Tree

variable {S A : Type}

mutual

/-- The tree and all trees in it, each before those that it contains. -/
def subtrees : Tree S A → List (Tree S A)
  | .constant value => [.constant value]
  | .signal binding => [.signal binding]
  | .operator op operands => .operator op operands :: subtreesAll operands
  | .action once binding args => .action once binding args :: subtreesAll args

def subtreesAll : List (Tree S A) → List (Tree S A)
  | [] => []
  | tree :: trees => subtrees tree ++ subtreesAll trees

end

/-- The trees in this one, without itself. -/
def inner (tree : Tree S A) : List (Tree S A) :=
  tree.subtrees.tail

theorem subtrees_eq (tree : Tree S A) : tree.subtrees = tree :: tree.inner := by
  cases tree <;> rfl

theorem mem_subtrees_self (tree : Tree S A) : tree ∈ tree.subtrees := by
  simp [subtrees_eq]

theorem mem_subtreesAll {node : Tree S A} {trees : List (Tree S A)} :
    node ∈ subtreesAll trees ↔ ∃ tree ∈ trees, node ∈ tree.subtrees := by
  induction trees with
  | nil => simp [subtreesAll]
  | cons tree trees ih => simp [subtreesAll, ih]

end Tree

/-- If the texts that a constant may be are listed, this is one of them. -/
def ValueDef.Lists (d : ValueDef) (text : String) : Prop :=
  ∀ options, d.options = some options → ∃ option ∈ options, option.value = text

theorem ValueDef.lists_iff {d : ValueDef} {text : String} :
    d.Lists text ↔ d.allows text = true := by
  unfold Lists allows
  cases d.options <;> simp

/-- A text is listed once it has been normalized. -/
theorem ValueDef.lists_of_normalize {d : ValueDef} {place : ConstantPlace} {value : Value}
    {text : String} (normal : d.normalize place value = .ok (.string text)) : d.Lists text := by
  cases value with
  | number _ => cases normal
  | string s =>
    simp only [normalize] at normal
    split at normal
    · rename_i allowed
      cases normal
      exact lists_iff.2 allowed
    · cases normal

namespace Expr

/-- An operator that can be applied to its operands. -/
structure Takes (op : Operator) (operands : List Expr) : Prop where
  count : op.arity.Admits operands.length
  alike : op.isComparison → ∀ a ∈ operands, ∀ b ∈ operands, type? a = type? b
  numbers : op.isComparison = false → ∀ operand ∈ operands, type? operand = some .number
  /-- A text that is compared with a signal is one of the signal's options. -/
  listed : op.isComparison → ∀ text binding, .constant (.string text) ∈ operands →
    .signal binding ∈ operands → binding.definition.result.Lists text

/-- An argument that its definition allows. -/
structure Suits (arg : Expr) (d : ValueDef) : Prop where
  type : type? arg = some d.type
  valid : ∀ value, arg = .constant value → d.validate value = .ok ()
  listed : ∀ text, arg = .constant (.string text) → d.Lists text
  checked : ∀ check, d.argumentCheck = some check → check (term arg) = .ok ()

end Expr

namespace Scope

/-- The signal is one that the scope offers, on its host. -/
structure Binds (scope : Scope) (binding : SignalBinding) : Prop where
  host : binding.ref.host = scope.host
  definition : scope.signal binding.ref.name = .ok binding.definition
  source : scope.source binding.ref.name = .ok ()

/-- The action is one that the scope offers, on its host, and the arguments suit it. -/
structure Calls (scope : Scope) (call : Call) : Prop where
  host : call.binding.ref.host = scope.host
  definition : scope.action call.binding.ref.name = .ok call.binding.definition
  executor : scope.executor call.binding.ref.name = .ok ()
  arguments : List.Forall₂ Expr.Suits call.args call.binding.definition.arguments

/-- What scripts mean in a scope, at every place of the tree. -/
structure WellFormed (scope : Scope) (tree : Expr) : Prop where
  signals : ∀ binding, .signal binding ∈ tree.subtrees → scope.Binds binding
  operators : ∀ op operands, .operator op operands ∈ tree.subtrees → Expr.Takes op operands
  calls : ∀ call : Call, call.toExpr ∈ tree.subtrees → scope.Calls call
  /-- An action stands at the root or nowhere. -/
  rooted : ∀ call : Call, call.toExpr ∉ tree.inner

/-! ## Values -/

/-- What may stand anywhere in an expression that has a value. -/
def Permits (scope : Scope) : Expr → Prop
  | .constant _ => True
  | .signal binding => scope.Binds binding
  | .operator op operands => Expr.Takes op operands
  | .action _ _ _ => False

variable {scope : Scope}

theorem permits_of_becomes {expr expr' : Expr} (becomes : Expr.Becomes expr expr')
    (permitted : ∀ node ∈ expr.subtrees, scope.Permits node) :
    ∀ node ∈ expr'.subtrees, scope.Permits node := by
  cases becomes with
  | same => exact permitted
  | constant _ =>
    intro node member
    simp only [Tree.subtrees, List.mem_singleton] at member
    subst member
    trivial

/-- A text beside a signal, on either side of it, is one of the signal's options. -/
theorem lists_of_normalizeBeside {left right left' right' : Expr}
    (normal : Expr.normalizeBeside left right = .ok (left', right')) {text : String}
    {binding : SignalBinding} (isText : .constant (.string text) ∈ [left', right'])
    (isSignal : .signal binding ∈ [left', right']) : binding.definition.result.Lists text := by
  cases Expr.normalizeBeside_eq_ok_iff.1 normal with
  | @constant binding' _ value found =>
    obtain rfl : binding = binding' := by simpa using isSignal
    obtain rfl : Value.string text = value := by simpa using isText
    exact ValueDef.lists_of_normalize found
  | @signal binding' _ value found =>
    obtain rfl : binding = binding' := by simpa using isSignal
    obtain rfl : Value.string text = value := by simpa using isText
    exact ValueDef.lists_of_normalize found
  | same notConstant notSignal =>
    exact absurd isSignal (Expr.signal_not_mem_of_constant_mem notConstant notSignal isText)

theorem takes_of_joins {op : Operator} {operands : List Expr} {expr : Expr}
    (admitted : op.arity.Admits operands.length) (joins : Expr.Joins op operands expr) :
    ∃ operands', expr = .operator op operands' ∧ Expr.Takes op operands' ∧
      List.Forall₂ Expr.Becomes operands operands' := by
  cases joins with
  | @comparison c left right left' right' normal sameType =>
    obtain ⟨first, second⟩ := Expr.becomes_of_normalizeBeside normal
    refine ⟨[left', right'], rfl, ⟨admitted, fun _ => ?_, nofun, fun _ _ _ => ?_⟩,
      .cons first (.cons second .nil)⟩
    · simp [sameType]
    · exact lists_of_normalizeBeside normal
  | numbers notPair allNumbers =>
    have noComparison : op.isComparison = false := by
      cases op with
      | comparison c =>
        obtain ⟨left, right, pair⟩ := List.length_eq_two.1
          (Nat.le_antisymm (admitted.2 2 rfl) admitted.1)
        exact (notPair c left right rfl pair).elim
      | connective _ | not | arithmetic _ => rfl
    refine ⟨operands, rfl, ⟨admitted, ?_, fun _ => allNumbers, ?_⟩, ?_⟩
    · simp [noComparison]
    · simp [noComparison]
    · exact List.forall₂_same.2 fun _ _ => .same _

theorem permits_of_forall₂ {operands operands' : List Expr}
    (becomes : List.Forall₂ Expr.Becomes operands operands')
    (permitted : ∀ node ∈ Tree.subtreesAll operands, scope.Permits node) :
    ∀ node ∈ Tree.subtreesAll operands', scope.Permits node := by
  induction becomes with
  | nil => exact permitted
  | cons first _ ih =>
    simp only [Tree.subtreesAll, List.mem_append] at permitted ⊢
    intro node member
    rcases member with inFirst | inRest
    · exact permits_of_becomes first (fun node inFirst => permitted node (.inl inFirst)) node
        inFirst
    · exact ih (fun node inRest => permitted node (.inr inRest)) node inRest

mutual

theorem Means.permits {item : Sexp} {expr : Expr} :
    Means scope item expr → ∀ node ∈ expr.subtrees, scope.Permits node
  | .number _ | .string _ => by
    simp [Tree.subtrees, Permits]
  | .signal found readable => by
    simp only [Tree.subtrees, List.mem_singleton, forall_eq]
    exact ⟨rfl, found, readable⟩
  | .operator admitted meant made => by
    have joins := Expr.ofOperands_eq_ok_iff.1 made
    obtain ⟨operands', rfl, takes, becomes⟩ := takes_of_joins (meant.length_eq ▸ admitted) joins
    simp only [Tree.subtrees, List.mem_cons, forall_eq_or_imp]
    exact ⟨takes, permits_of_forall₂ becomes meant.permits⟩

theorem MeansAll.permits {items : List Sexp} {exprs : List Expr} :
    MeansAll scope items exprs → ∀ node ∈ Tree.subtreesAll exprs, scope.Permits node
  | .nil => by
    simp [Tree.subtreesAll]
  | .cons meant rest => by
    simp only [Tree.subtreesAll, List.mem_append]
    intro node member
    rcases member with inFirst | inRest
    · exact meant.permits node inFirst
    · exact rest.permits node inRest

end

theorem wellFormed_of_permits {tree : Expr}
    (permitted : ∀ node ∈ tree.subtrees, scope.Permits node) : scope.WellFormed tree where
  signals _ member := permitted _ member
  operators _ _ member := permitted _ member
  calls _ member := (permitted _ member).elim
  rooted call member := by
    refine permitted call.toExpr ?_
    rw [Tree.subtrees_eq]
    exact .tail _ member

/-! ## Calls -/

theorem suits_of_conforms {d : ValueDef} {place : ConstantPlace} {expr arg : Expr}
    (conforms : Expr.Conforms d place expr arg)
    (permitted : ∀ node ∈ expr.subtrees, scope.Permits node) :
    arg.Suits d ∧ ∀ node ∈ arg.subtrees, scope.Permits node := by
  have listed : ∀ text, arg = .constant (.string text) → d.Lists text := by
    rintro text rfl
    cases expr with
    | constant value =>
      obtain ⟨_, found, ⟨⟩⟩ := Except.map_eq_ok conforms.normal
      exact ValueDef.lists_of_normalize found
    | signal _ | operator _ _ | action _ _ _ => cases conforms.normal
  have becomes := Expr.becomes_of_normalizeArgument conforms.normal
  have inArg := permits_of_becomes becomes permitted
  refine ⟨⟨?_, conforms.valid, listed, conforms.checked⟩, inArg⟩
  have typed := conforms.type
  cases arg with
  | constant _ | signal _ | operator _ _ => exact congrArg some (typed _ rfl)
  | action once binding args => exact (inArg _ (Tree.mem_subtrees_self _)).elim

theorem Arguments.suit {action : String} {number : Nat} {ds : List ValueDef} {items : List Sexp}
    {args : List Expr} (arguments : Arguments scope action number ds items args) :
    List.Forall₂ Expr.Suits args ds ∧ ∀ node ∈ Tree.subtreesAll args, scope.Permits node := by
  induction arguments with
  | nil => simp [Tree.subtreesAll]
  | cons meant fits _ ih =>
    obtain ⟨suits, inArg⟩ := suits_of_conforms (Expr.conform_eq_ok_iff.1 fits) meant.permits
    obtain ⟨suit, inArgs⟩ := ih
    refine ⟨.cons suits suit, ?_⟩
    simp only [Tree.subtreesAll, List.mem_append]
    intro node member
    rcases member with inFirst | inRest
    · exact inArg node inFirst
    · exact inArgs node inRest

theorem MeansCall.wellFormed {once : Bool} {items : List Sexp} {call : Call}
    (meant : MeansCall scope once items call) : scope.WellFormed call.toExpr := by
  obtain ⟨found, _, arguments, performable⟩ := meant
  obtain ⟨suit, inArgs⟩ := arguments.suit
  refine ⟨fun binding member => ?_, fun op operands member => ?_, fun other member => ?_,
    fun other member => inArgs _ member⟩
  · rcases List.mem_cons.1 member with isCall | inArg
    · cases isCall
    · exact inArgs _ inArg
  · rcases List.mem_cons.1 member with isCall | inArg
    · cases isCall
    · exact inArgs _ inArg
  · rcases List.mem_cons.1 member with isCall | inArg
    · cases Call.toExpr_injective isCall
      exact ⟨rfl, found, performable, suit⟩
    · exact (inArgs _ inArg).elim

theorem MeansAny.wellFormed {item : Sexp} {expr : Expr} (meant : MeansAny scope item expr) :
    scope.WellFormed expr := by
  cases meant with
  | value meant => exact wellFormed_of_permits meant.permits
  | call meant => exact meant.wellFormed

/-- Every script that the compiler accepts means a well-formed expression. -/
theorem parse_wellFormed {script : String} {tree : Expr} (parsed : scope.parse script = .ok tree) :
    scope.WellFormed tree := by
  obtain ⟨item, _, meant⟩ := means_of_parse parsed
  exact meant.wellFormed

/-- A host with a signal and an action, for both of which one option once had another name. -/
def valve (host : HostId) : Scope where
  host
  maxScriptLength := 1000
  maxNestingDepth := 10
  signal name :=
    if name = "Valve.Mode" then .ok { name, display := "Mode", result := mode }
    else .error (.lookup (.unknownSignal name))
  source _ := .ok ()
  action name :=
    if name = "Valve.Turn" then
      .ok { name, display := "Turn", arguments :=
        [mode, { type := .number, validator := some (ValueDef.inRange (.ofInt 0) (.ofInt 10)) }] }
    else .error (.lookup (.unknownAction name))
  executor _ := .ok ()
where
  mode : ValueDef :=
    { type := .string, options := some [⟨"auto", "Automatic"⟩, ⟨"off", "Off"⟩],
      replacements := some [("automatic", "auto")] }

/-- Constants are what their definitions allow once old names have been replaced, within operands as
well as among the arguments. -/
theorem valve_wellFormed : ∃ tree : Expr,
    (valve ⟨1⟩).parse
        "(act-once Valve.Turn 'automatic' (mul 500 (eq (sig Valve.Mode) 'automatic')))" = .ok tree ∧
      tree.toScript = "(act-once Valve.Turn 'auto' (mul 500 (eq (sig Valve.Mode) 'auto')))" ∧
      (valve ⟨1⟩).WellFormed tree := by
  have known : ((valve ⟨1⟩).parse
      "(act-once Valve.Turn 'automatic' (mul 500 (eq (sig Valve.Mode) 'automatic')))").map
        Expr.toScript =
      .ok "(act-once Valve.Turn 'auto' (mul 500 (eq (sig Valve.Mode) 'auto')))" := by
    decide +kernel
  obtain ⟨tree, parsed, script⟩ := Except.map_eq_ok known
  exact ⟨tree, parsed, script, parse_wellFormed parsed⟩

end Scope

end SignalRules
