import SignalRules.Globals
import SignalRules.Proofs.OwnScripts

/-! # Round trips

Where every replacement of a constant settles it, the script of a compiled expression compiles to
the same expression again. For another host it compiles to the same expression bound to that host
exactly if the host is offered what the expression names, and the checks on arguments, which see to
whom an argument is bound, accept that host as well.
-/

namespace SignalRules

/-! ## Other hosts -/

namespace Tree

variable {S A S' A' S'' A'' : Type}

mutual

theorem map_map (f : S → S') (g : A → A') (f' : S' → S'') (g' : A' → A'') : ∀ tree : Tree S A,
    (tree.map f g).map f' g' = tree.map (f' ∘ f) (g' ∘ g)
  | .constant _ | .signal _ => rfl
  | .operator op operands => congrArg (operator op) (mapAll_mapAll f g f' g' operands)
  | .action once _ args => congrArg (action once _) (mapAll_mapAll f g f' g' args)

theorem mapAll_mapAll (f : S → S') (g : A → A') (f' : S' → S'') (g' : A' → A'') :
    ∀ trees : List (Tree S A), mapAll f' g' (mapAll f g trees) = mapAll (f' ∘ f) (g' ∘ g) trees
  | [] => rfl
  | tree :: trees => congrArg₂ List.cons (map_map f g f' g' tree) (mapAll_mapAll f g f' g' trees)

end

mutual

theorem subtrees_map (f : S → S') (g : A → A') : ∀ tree : Tree S A,
    (tree.map f g).subtrees = tree.subtrees.map (map f g)
  | .constant _ | .signal _ => rfl
  | .operator _ operands => congrArg (List.cons _) (subtreesAll_mapAll f g operands)
  | .action _ _ args => congrArg (List.cons _) (subtreesAll_mapAll f g args)

theorem subtreesAll_mapAll (f : S → S') (g : A → A') : ∀ trees : List (Tree S A),
    subtreesAll (mapAll f g trees) = (subtreesAll trees).map (map f g)
  | [] => rfl
  | tree :: trees => by
    rw [mapAll, subtreesAll, subtreesAll, subtrees_map f g tree, subtreesAll_mapAll f g trees,
      List.map_append]

end

end Tree

def Ref.on (host : HostId) (ref : Ref) : Ref :=
  ⟨ref.name, host⟩

/-- The same term about this host. -/
def Term.on (host : HostId) : Term → Term :=
  Tree.map (Ref.on host) (Ref.on host)

def SignalBinding.on (host : HostId) (binding : SignalBinding) : SignalBinding :=
  ⟨binding.ref.on host, binding.definition⟩

def ActionBinding.on (host : HostId) (binding : ActionBinding) : ActionBinding :=
  ⟨binding.ref.on host, binding.definition⟩

/-- The same expression bound to this host. -/
def Expr.on (host : HostId) : Expr → Expr :=
  Tree.map (SignalBinding.on host) (ActionBinding.on host)

def Call.on (host : HostId) (call : Call) : Call :=
  ⟨call.once, call.binding.on host, call.args.map (Expr.on host)⟩

mutual

/-- What is printed does not depend on the host. -/
theorem Term.toSexp_on (host : HostId) : ∀ term : Term, (term.on host).toSexp = term.toSexp
  | .constant _ | .signal _ => rfl
  | .operator op operands => by
    have same := toSexpAll_on host operands
    simp only [on, Tree.map, toSexp, same]
  | .action once ref args => by
    have same := toSexpAll_on host args
    simp only [on, Tree.map, toSexp, same, Ref.on]

theorem Term.toSexpAll_on (host : HostId) : ∀ terms : List Term,
    Term.toSexpAll (Tree.mapAll (Ref.on host) (Ref.on host) terms) = Term.toSexpAll terms
  | [] => rfl
  | term :: terms => congrArg₂ List.cons (toSexp_on host term) (toSexpAll_on host terms)

end

namespace Expr

variable {host : HostId}

theorem type?_on (expr : Expr) : type? (expr.on host) = type? expr := by
  cases expr <;> rfl

theorem on_eq_constant_iff {expr : Expr} {value : Value} :
    expr.on host = .constant value ↔ expr = .constant value := by
  cases expr with
  | constant _ => exact Iff.rfl
  | signal _ | operator _ _ | action _ _ _ => exact ⟨nofun, nofun⟩

theorem exists_of_on_eq_signal {expr : Expr} {binding : SignalBinding}
    (same : expr.on host = .signal binding) :
    ∃ binding', expr = .signal binding' ∧ binding'.on host = binding := by
  cases expr with
  | signal binding' => exact ⟨binding', rfl, Tree.signal.inj same⟩
  | constant _ | operator _ _ | action _ _ _ => cases same

theorem constant_mem_map_on {exprs : List Expr} {value : Value} :
    .constant value ∈ exprs.map (on host) ↔ .constant value ∈ exprs := by
  simp [on_eq_constant_iff]

theorem exists_of_signal_mem_map_on {exprs : List Expr} {binding : SignalBinding}
    (member : .signal binding ∈ exprs.map (on host)) :
    ∃ binding', .signal binding' ∈ exprs ∧ binding'.on host = binding := by
  obtain ⟨expr, inExprs, same⟩ := List.mem_map.1 member
  obtain ⟨binding', rfl, bound⟩ := exists_of_on_eq_signal same
  exact ⟨binding', inExprs, bound⟩

theorem Takes.on {op : Operator} {operands : List Expr} (takes : Takes op operands) :
    Takes op (operands.map (on host)) where
  count := by
    rw [List.length_map]
    exact takes.count
  alike isComparison := by
    simp only [List.forall_mem_map, type?_on]
    exact takes.alike isComparison
  numbers noComparison := by
    simp only [List.forall_mem_map, type?_on]
    exact takes.numbers noComparison
  listed isComparison text binding isText isSignal := by
    obtain ⟨binding', inOperands, rfl⟩ := exists_of_signal_mem_map_on isSignal
    exact takes.listed isComparison text binding' (constant_mem_map_on.1 isText) inOperands

end Expr

namespace Scope

open SignalRules.Expr (Lasts Lasting Quotable)

variable {scope other : Scope}

end Scope

/-- A replacement can be written and is itself replaced by nothing else. -/
def ValueDef.Settles (d : ValueDef) : Prop :=
  ∀ text new, d.replacement? text = some new → '\'' ∉ new.toList ∧ d.Lasts new

/-- The replacements of all constants settle at once. -/
structure Scope.Settles (scope : Scope) : Prop where
  signal : ∀ {name definition}, scope.signal name = .ok definition → definition.result.Settles
  action : ∀ {name definition}, scope.action name = .ok definition →
    ∀ d ∈ definition.arguments, d.Settles

/-- The texts in the expression can be written, and its constants last. -/
structure Expr.Durable (expr : Expr) : Prop where
  quotable : Expr.Quotable expr
  lasting : Expr.Lasting expr

/-- A normalized text lasts, and can be written if the text that it was before can. -/
theorem ValueDef.Settles.normalized {d : ValueDef} (settles : d.Settles) {place : ConstantPlace}
    {value : Value} {text : String} (normal : d.normalize place value = .ok (.string text)) :
    d.Lasts text ∧ (value = .string text ∨ '\'' ∉ text.toList) := by
  obtain ⟨_, old, rfl, became⟩ := exists_of_normalize normal
  cases replaced : d.replacement? old with
  | none =>
    obtain rfl : old = text := by rw [← became, current, replaced, Option.getD_none]
    exact ⟨lasts_iff.2 became, .inl rfl⟩
  | some new =>
    obtain rfl : new = text := by rw [← became, current, replaced, Option.getD_some]
    obtain ⟨noQuote, lasts⟩ := settles old new replaced
    exact ⟨lasts, .inr noQuote⟩

namespace Expr

theorem durable_constant_iff {value : Value} :
    Durable (.constant value) ↔ ∀ text, value = .string text → '\'' ∉ text.toList := by
  constructor
  · rintro durable text rfl
    exact durable.quotable text (Tree.mem_subtrees_self _)
  · intro noQuote
    refine ⟨fun text inside => ?_, by simp [Lasting, Tree.subtrees, Lasts]⟩
    simp only [Tree.subtrees, List.mem_singleton, Tree.constant.injEq] at inside
    exact noQuote text inside.symm

theorem durable_signal (binding : SignalBinding) : Durable (.signal binding) :=
  ⟨by simp [Quotable, Tree.subtrees], by simp [Lasting, Tree.subtrees, Lasts]⟩

theorem durable_operator_iff {op : Operator} {operands : List Expr} :
    Durable (.operator op operands) ↔
      Lasts (.operator op operands) ∧ ∀ operand ∈ operands, Durable operand := by
  constructor
  · rintro ⟨quotable, lasting⟩
    obtain ⟨lasts, lastingAll⟩ := lasting_operator_iff.1 lasting
    exact ⟨lasts, fun operand member =>
      ⟨quotable_operator_iff.1 quotable operand member, lastingAll operand member⟩⟩
  · rintro ⟨lasts, durable⟩
    exact ⟨quotable_operator_iff.2 fun operand member => (durable operand member).quotable,
      lasting_operator_iff.2 ⟨lasts, fun operand member => (durable operand member).lasting⟩⟩

theorem Durable.normalized {d : ValueDef} (settles : d.Settles) {place : ConstantPlace}
    {value value' : Value} (durable : Durable (.constant value))
    (normal : d.normalize place value = .ok value') : Durable (.constant value') := by
  refine durable_constant_iff.2 ?_
  rintro text rfl
  rcases (settles.normalized normal).2 with same | noQuote
  · exact durable_constant_iff.1 durable text same
  · exact noQuote

/-- A comparison of a signal and a constant is durable once the constant is normalized, in either
order. -/
theorem durable_comparison {c : Comparison} {binding : SignalBinding} {place : ConstantPlace}
    {value value' : Value} {operands : List Expr} (settles : binding.definition.result.Settles)
    (durable : Durable (.constant value))
    (normal : binding.definition.result.normalize place value = .ok value')
    (sides : ∀ operand, operand ∈ operands ↔
      operand = .constant value' ∨ operand = .signal binding) :
    Durable (.operator (.comparison c) operands) := by
  refine durable_operator_iff.2 ⟨?_, fun operand member => ?_⟩
  · rw [lasts_comparison_iff c value' binding sides]
    rintro text rfl
    exact (settles.normalized normal).1
  · rcases (sides operand).1 member with rfl | rfl
    · exact durable.normalized settles normal
    · exact durable_signal binding

theorem Joins.durable {op : Operator} {operands : List Expr} {expr : Expr}
    (joins : Joins op operands expr) (each : ∀ operand ∈ operands, Durable operand)
    (settles : ∀ binding, .signal binding ∈ operands → binding.definition.result.Settles) :
    Durable expr := by
  cases joins with
  | comparison c normal _ =>
    cases normalizeBeside_eq_ok_iff.1 normal with
    | constant found =>
      exact durable_comparison (settles _ (by simp)) (each _ (by simp)) found (by simp)
    | signal found =>
      exact durable_comparison (settles _ (by simp)) (each _ (by simp)) found (by simp [or_comm])
    | same notConstant notSignal =>
      refine durable_operator_iff.2 ⟨fun text binding isText isSignal => ?_, each⟩
      exact absurd isSignal (signal_not_mem_of_constant_mem notConstant notSignal isText)
  | numbers _ allNumbers => exact durable_operator_iff.2 ⟨lasts_of_numbers allNumbers, each⟩

/-- An argument lasts under its definition. -/
theorem Conforms.durable {d : ValueDef} {place : ConstantPlace} {expr arg : Expr}
    (conforms : Conforms d place expr arg) (settles : d.Settles) (durable : Durable expr) :
    Durable arg ∧ ∀ text, arg = .constant (.string text) → d.Lasts text := by
  have normal := conforms.normal
  cases expr with
  | constant value =>
    obtain ⟨value', found, rfl⟩ := Except.map_eq_ok normal
    refine ⟨durable.normalized settles found, ?_⟩
    rintro text ⟨⟩
    exact (settles.normalized found).1
  | signal _ | operator _ _ | action _ _ _ =>
    cases normal
    exact ⟨durable, nofun⟩

end Expr

namespace Scope

open SignalRules.Expr (Lasts Lasting Quotable Durable)

variable {scope other : Scope}

mutual

theorem Means.durable (settles : scope.Settles) : ∀ {item : Sexp} {expr : Expr},
    Means scope item expr → item.Plain → Durable expr
  | _, _, .number _, _ => Expr.durable_constant_iff.2 nofun
  | _, _, .string _, .string noQuote => by
    refine Expr.durable_constant_iff.2 ?_
    rintro _ ⟨⟩
    exact noQuote
  | _, _, .signal _ _, _ => Expr.durable_signal _
  | _, _, .operator _ meant made, .list plain => by
    refine (Expr.ofOperands_eq_ok_iff.1 made).durable
      (meant.durable settles fun item member => plain item (.tail _ member)) ?_
    intro binding member
    have binds : scope.Binds binding :=
      meant.permits _ (Tree.mem_subtreesAll.2 ⟨_, member, Tree.mem_subtrees_self _⟩)
    exact settles.signal binds.definition

theorem MeansAll.durable (settles : scope.Settles) : ∀ {items : List Sexp} {exprs : List Expr},
    MeansAll scope items exprs → (∀ item ∈ items, item.Plain) → ∀ expr ∈ exprs, Durable expr
  | _, _, .nil, _ => nofun
  | _, _, .cons meant rest, plain => by
    intro expr member
    rcases List.mem_cons.1 member with rfl | inRest
    · exact meant.durable settles (plain _ (by simp))
    · exact rest.durable settles (fun item member => plain item (.tail _ member)) expr inRest

end

theorem Arguments.durable {action : String} {number : Nat} {ds : List ValueDef}
    {items : List Sexp} {args : List Expr} (settles : scope.Settles)
    (arguments : Arguments scope action number ds items args) (settlesAll : ∀ d ∈ ds, d.Settles)
    (plain : ∀ item ∈ items, item.Plain) :
    Expr.ArgumentsLast args ds ∧ ∀ arg ∈ args, Durable arg := by
  induction arguments with
  | nil => exact ⟨.nil, nofun⟩
  | cons meant fits _ ih =>
    obtain ⟨durable, lasts⟩ := (Expr.conform_eq_ok_iff.1 fits).durable
      (settlesAll _ (by simp)) (meant.durable settles (plain _ (by simp)))
    obtain ⟨lastRest, durableRest⟩ := ih (fun d member => settlesAll d (.tail _ member))
      fun item member => plain item (.tail _ member)
    exact ⟨.cons lasts lastRest, List.forall_mem_cons.2 ⟨durable, durableRest⟩⟩

section

variable {script : String} {tree : Expr}

end

end Scope

namespace Scope

variable {scope : Scope} {tree : Expr}

end Scope

end SignalRules
