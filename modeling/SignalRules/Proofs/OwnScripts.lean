import SignalRules.Proofs.Printing
import SignalRules.Proofs.WellFormed

/-! # The script of an expression

An expression is what its own script means exactly if it is well-formed and nothing replaces the
constants in it any further, where they stand. If the expression was compiled from an item, its
script restates that item.
-/

namespace SignalRules

/-! ## Constants that last -/

namespace ValueDef

/-- Nothing else replaces the text. -/
def Lasts (d : ValueDef) (text : String) : Prop :=
  ∀ new, d.replacement? text = some new → new = text

/-- What a constant becomes, before it is compared with the options. -/
def current (d : ValueDef) (text : String) : String :=
  (d.replacement? text).getD text

theorem lasts_iff {d : ValueDef} {text : String} : d.Lasts text ↔ d.current text = text := by
  unfold Lasts current
  cases d.replacement? text <;> simp

theorem normalize_string (d : ValueDef) (place : ConstantPlace) (text : String) :
    d.normalize place (.string text) =
      if d.allows (d.current text) then .ok (.string (d.current text))
      else .error (.compile (.unknownOption (d.current text) place)) :=
  rfl

/-- A normalized text is allowed, and it is what another text has become. -/
theorem exists_of_normalize {d : ValueDef} {place : ConstantPlace} {value : Value} {text : String}
    (normal : d.normalize place value = .ok (.string text)) :
    d.allows text = true ∧ ∃ old, value = .string old ∧ d.current old = text := by
  cases value with
  | number _ => cases normal
  | string old =>
    rw [normalize_string] at normal
    split at normal
    · rename_i allowed
      cases normal
      exact ⟨allowed, old, rfl, rfl⟩
    · cases normal

/-- A constant is normalized to itself just if it is an option that lasts. -/
theorem normalize_self_iff {d : ValueDef} {place : ConstantPlace} {value : Value} :
    d.normalize place value = .ok value ↔
      ∀ text, value = .string text → d.Lists text ∧ d.Lasts text := by
  cases value with
  | number n => exact ⟨fun _ => nofun, fun _ => rfl⟩
  | string text =>
    constructor
    · rintro normal _ ⟨⟩
      obtain ⟨_, _, ⟨⟩, kept⟩ := exists_of_normalize normal
      exact ⟨lists_of_normalize normal, lasts_iff.2 kept⟩
    · intro all
      obtain ⟨listed, lasts⟩ := all text rfl
      rw [normalize_string, lasts_iff.1 lasts, if_pos (lists_iff.1 listed)]

end ValueDef

namespace Expr

/-- The arguments that are texts last. -/
def ArgumentsLast (args : List Expr) (ds : List ValueDef) : Prop :=
  List.Forall₂ (fun arg (d : ValueDef) => ∀ text, arg = .constant (.string text) → d.Lasts text)
    args ds

/-- The texts that are compared or given here last, by the definitions that they stand under. -/
def Lasts : Expr → Prop
  | .operator (.comparison _) operands => ∀ text binding, .constant (.string text) ∈ operands →
    .signal binding ∈ operands → binding.definition.result.Lasts text
  | .action _ binding args => ArgumentsLast args binding.definition.arguments
  | _ => True

/-- Everywhere in the expression the constants last. -/
def Lasting (tree : Expr) : Prop :=
  ∀ node ∈ tree.subtrees, Lasts node

/-- The texts of the expression can stand between quotes. -/
def Quotable (tree : Expr) : Prop :=
  ∀ text, .constant (.string text) ∈ tree.subtrees → '\'' ∉ text.toList

theorem lasting_all_iff {exprs : List Expr} :
    (∀ node ∈ Tree.subtreesAll exprs, Lasts node) ↔ ∀ expr ∈ exprs, Lasting expr := by
  simp only [Tree.mem_subtreesAll]
  constructor
  · intro all expr member node inside
    exact all node ⟨expr, member, inside⟩
  · rintro all node ⟨expr, member, inside⟩
    exact all expr member node inside

theorem lasting_operator_iff {op : Operator} {operands : List Expr} :
    Lasting (.operator op operands) ↔
      Lasts (.operator op operands) ∧ ∀ operand ∈ operands, Lasting operand := by
  rw [← lasting_all_iff]
  simp [Lasting, Tree.subtrees]

theorem lasting_action_iff {once : Bool} {binding : ActionBinding} {args : List Expr} :
    Lasting (.action once binding args) ↔
      ArgumentsLast args binding.definition.arguments ∧ ∀ arg ∈ args, Lasting arg := by
  rw [← lasting_all_iff]
  simp [Lasting, Tree.subtrees, Lasts]

theorem quotable_all_iff {exprs : List Expr} :
    (∀ text, .constant (.string text) ∈ Tree.subtreesAll exprs → '\'' ∉ text.toList) ↔
      ∀ expr ∈ exprs, Quotable expr := by
  simp only [Tree.mem_subtreesAll]
  constructor
  · intro all expr member text inside
    exact all text ⟨expr, member, inside⟩
  · rintro all text ⟨expr, member, inside⟩
    exact all expr member text inside

theorem quotable_operator_iff {op : Operator} {operands : List Expr} :
    Quotable (.operator op operands) ↔ ∀ operand ∈ operands, Quotable operand := by
  rw [← quotable_all_iff]
  simp [Quotable, Tree.subtrees]

theorem quotable_action_iff {once : Bool} {binding : ActionBinding} {args : List Expr} :
    Quotable (.action once binding args) ↔ ∀ arg ∈ args, Quotable arg := by
  rw [← quotable_all_iff]
  simp [Quotable, Tree.subtrees]

/-- The two sides of a comparison, a constant and a signal in either order. -/
theorem lasts_comparison_iff (c : Comparison) (value : Value) (binding : SignalBinding)
    {operands : List Expr} (sides : ∀ operand, operand ∈ operands ↔
      operand = .constant value ∨ operand = .signal binding) :
    Lasts (.operator (.comparison c) operands) ↔
      ∀ text, value = .string text → binding.definition.result.Lasts text := by
  simp only [Lasts, sides]
  constructor
  · intro lasts text isText
    exact lasts text binding (.inl (by rw [isText])) (.inr rfl)
  · rintro lasts text binding' (isText | isText) (isSignal | isSignal)
    · cases isSignal
    · cases isText
      cases isSignal
      exact lasts text rfl
    · cases isText
    · cases isText

/-! ## Operators and arguments -/

/-- Two operands are left as they are just if a text beside a signal is an option that lasts. -/
theorem beside_self_iff {left right : Expr} :
    Beside left right left right ↔ ∀ text binding, .constant (.string text) ∈ [left, right] →
      .signal binding ∈ [left, right] →
        binding.definition.result.Lists text ∧ binding.definition.result.Lasts text := by
  constructor
  · intro beside text binding isText isSignal
    cases beside with
    | @constant binding' value _ found =>
      obtain rfl : binding = binding' := by simpa using isSignal
      exact ValueDef.normalize_self_iff.1 found text (by simpa [eq_comm] using isText)
    | @signal binding' value _ found =>
      obtain rfl : binding = binding' := by simpa using isSignal
      exact ValueDef.normalize_self_iff.1 found text (by simpa [eq_comm] using isText)
    | same notConstant notSignal =>
      exact absurd isSignal (signal_not_mem_of_constant_mem notConstant notSignal isText)
  · intro all
    by_cases isConstant : ∃ value binding, left = .constant value ∧ right = .signal binding
    · obtain ⟨value, binding, rfl, rfl⟩ := isConstant
      refine .constant (ValueDef.normalize_self_iff.2 ?_)
      rintro text rfl
      exact all text binding (by simp) (by simp)
    by_cases isSignal : ∃ value binding, left = .signal binding ∧ right = .constant value
    · obtain ⟨value, binding, rfl, rfl⟩ := isSignal
      refine .signal (ValueDef.normalize_self_iff.2 ?_)
      rintro text rfl
      exact all text binding (by simp) (by simp)
    · exact .same (fun value binding isLeft isRight => isConstant ⟨value, binding, isLeft, isRight⟩)
        fun value binding isLeft isRight => isSignal ⟨value, binding, isLeft, isRight⟩

theorem lasts_of_numbers {op : Operator} {operands : List Expr}
    (allNumbers : ∀ operand ∈ operands, type? operand = some .number) :
    Lasts (.operator op operands) := by
  cases op with
  | comparison c =>
    intro text binding isText _
    cases allNumbers _ isText
  | connective _ | not | arithmetic _ => trivial

/-- Operands make up the operator expression that has just them if it takes them and a text among
them lasts. -/
theorem joins_self_iff {op : Operator} {operands : List Expr}
    (admitted : op.arity.Admits operands.length) :
    Joins op operands (.operator op operands) ↔
      Takes op operands ∧ Lasts (.operator op operands) := by
  constructor
  · intro joins
    obtain ⟨_, same, takes, _⟩ := Scope.takes_of_joins admitted joins
    cases same
    refine ⟨takes, ?_⟩
    cases joins with
    | comparison c normal _ =>
      intro text binding isText isSignal
      have beside := normalizeBeside_eq_ok_iff.1 normal
      exact (beside_self_iff.1 beside text binding isText isSignal).2
    | numbers _ allNumbers => exact lasts_of_numbers allNumbers
  · rintro ⟨takes, lasts⟩
    cases op with
    | comparison c =>
      obtain ⟨left, right, rfl⟩ := List.length_eq_two.1
        (Nat.le_antisymm (admitted.2 2 rfl) admitted.1)
      have beside := beside_self_iff.2 fun text binding isText isSignal =>
        ⟨takes.listed rfl text binding isText isSignal, lasts text binding isText isSignal⟩
      exact .comparison c (normalizeBeside_eq_ok_iff.2 beside)
        (takes.alike rfl left (by simp) right (by simp))
    | connective _ | not | arithmetic _ => exact .numbers nofun (takes.numbers rfl)

theorem normalizeArgument_self_iff {d : ValueDef} {place : ConstantPlace} {arg : Expr} :
    normalizeArgument d place arg = .ok arg ↔
      ∀ text, arg = .constant (.string text) → d.Lists text ∧ d.Lasts text := by
  cases arg with
  | constant value =>
    simp only [Tree.constant.injEq, ← @ValueDef.normalize_self_iff d place value]
    constructor
    · intro normal
      obtain ⟨value', found, same⟩ := Except.map_eq_ok normal
      cases same
      exact found
    · intro found
      rw [normalizeArgument, found]
      rfl
  | signal _ | operator _ _ | action _ _ _ => exact ⟨fun _ => nofun, fun _ => rfl⟩

/-- An argument fits its definition as it is just if it suits it and lasts. -/
theorem conforms_self_iff {d : ValueDef} {place : ConstantPlace} {arg : Expr}
    (typed : (type? arg).isSome) :
    Conforms d place arg arg ↔
      Suits arg d ∧ ∀ text, arg = .constant (.string text) → d.Lasts text := by
  constructor
  · intro conforms
    have normal := normalizeArgument_self_iff.1 conforms.normal
    obtain ⟨type, isType⟩ := Option.isSome_iff_exists.1 typed
    exact ⟨⟨conforms.type type isType ▸ isType, conforms.valid,
      fun text isText => (normal text isText).1, conforms.checked⟩,
      fun text isText => (normal text isText).2⟩
  · rintro ⟨suits, lasts⟩
    refine ⟨normalizeArgument_self_iff.2 fun text isText => ⟨suits.listed text isText,
      lasts text isText⟩, fun actual isType => ?_, suits.valid, suits.checked⟩
    exact Option.some.inj (isType.symm.trans suits.type)

def terms (exprs : List Expr) : List Term :=
  Tree.mapAll SignalBinding.ref ActionBinding.ref exprs

theorem length_toSexpAll_terms (exprs : List Expr) :
    (Term.toSexpAll (terms exprs)).length = exprs.length := by
  induction exprs with
  | nil => rfl
  | cons _ _ ih => exact congrArg (· + 1) ih

end Expr

namespace Scope

open SignalRules.Expr (Becomes Lasts Lasting Quotable)

variable {scope : Scope}

/-! ## What an own script means -/

theorem means_constant (value : Value) :
    Means scope (Term.toSexp (.constant value)) (.constant value) := by
  cases value with
  | number n => exact .number (Fixed.ofLiteral_toLiteral n)
  | string s => exact .string s

mutual

/-- A permitted expression whose constants last is what its own script means. -/
theorem means_of_permits : ∀ {expr : Expr}, (∀ node ∈ expr.subtrees, scope.Permits node) →
    Lasting expr → Means scope (Expr.term expr).toSexp expr
  | .constant value, _, _ => means_constant value
  | .signal binding, permitted, _ => by
    obtain ⟨host, found, readable⟩ : scope.Binds binding :=
      permitted _ (Tree.mem_subtrees_self _)
    obtain ⟨⟨name, _⟩, definition⟩ := binding
    cases host
    exact .signal found readable
  | .operator op operands, permitted, lasting => by
    obtain ⟨lasts, lastingAll⟩ := Expr.lasting_operator_iff.1 lasting
    have takes : Expr.Takes op operands := permitted _ (Tree.mem_subtrees_self _)
    have admitted : op.arity.Admits (Term.toSexpAll (Expr.terms operands)).length := by
      rw [Expr.length_toSexpAll_terms]
      exact takes.count
    exact .operator admitted
      (meansAll_of_permits (fun node inside => permitted node (.tail _ inside)) lastingAll)
      (Expr.ofOperands_eq_ok_iff.2 ((Expr.joins_self_iff takes.count).2 ⟨takes, lasts⟩))
  | .action _ _ _, permitted, _ => (permitted _ (Tree.mem_subtrees_self _)).elim

theorem meansAll_of_permits : ∀ {exprs : List Expr},
    (∀ node ∈ Tree.subtreesAll exprs, scope.Permits node) → (∀ expr ∈ exprs, Lasting expr) →
      MeansAll scope (Term.toSexpAll (Expr.terms exprs)) exprs
  | [], _, _ => .nil
  | expr :: exprs, permitted, lasting =>
    .cons
      (means_of_permits (fun node inside => permitted node (List.mem_append_left _ inside))
        (lasting expr (by simp)))
      (meansAll_of_permits (fun node inside => permitted node (List.mem_append_right _ inside))
        fun expr member => lasting expr (by simp [member]))

end

/-- What the script of an expression means is the expression itself before it is normalized. -/
theorem Means.eq_of_becomes {expr expr' : Expr} (meant : Means scope (Expr.term expr').toSexp expr)
    (becomes : Becomes expr expr') : expr = expr' := by
  cases becomes with
  | same => rfl
  | constant normal =>
    exact Except.ok.inj (meant.compileValue_eq.symm.trans (means_constant _).compileValue_eq)

theorem MeansAll.eq_of_becomes {exprs exprs' : List Expr}
    (becomes : List.Forall₂ Becomes exprs exprs') :
    MeansAll scope (Term.toSexpAll (Expr.terms exprs')) exprs → exprs = exprs' := by
  induction becomes with
  | nil => exact fun _ => rfl
  | cons becomes _ ih =>
    intro meantAll
    cases meantAll with
    | cons meant rest => rw [meant.eq_of_becomes becomes, ih rest]

mutual

/-- An expression that its own script means has constants only that last. -/
theorem lasting_of_means : ∀ {expr : Expr}, Means scope (Expr.term expr).toSexp expr → Lasting expr
  | .constant _, _ | .signal _, _ => by simp [Lasting, Tree.subtrees, Lasts]
  | .action _ _ _, meant => meant.ne_action.elim
  | .operator op operands, meant => by
    generalize printed : (Expr.term (.operator op operands)).toSexp = item at meant
    cases meant with
    | operator admitted meantAll made =>
      obtain rfl := (List.cons.inj (Sexp.list.inj printed)).2
      have joins := Expr.ofOperands_eq_ok_iff.1 made
      obtain ⟨_, same, _, becomes⟩ := takes_of_joins (meantAll.length_eq ▸ admitted) joins
      cases same
      cases MeansAll.eq_of_becomes becomes meantAll
      exact Expr.lasting_operator_iff.2
        ⟨((Expr.joins_self_iff (meantAll.length_eq ▸ admitted)).1 joins).2,
          lasting_of_meansAll meantAll⟩

theorem lasting_of_meansAll : ∀ {exprs : List Expr},
    MeansAll scope (Term.toSexpAll (Expr.terms exprs)) exprs → ∀ expr ∈ exprs, Lasting expr
  | [], _ => by simp
  | expr :: exprs, meantAll => by
    cases meantAll with
    | cons meant rest =>
      intro expr' member
      rcases List.mem_cons.1 member with isFirst | inRest
      · exact isFirst ▸ lasting_of_means meant
      · exact lasting_of_meansAll rest expr' inRest

end

theorem type?_isSome_of_permits {expr : Expr} (permitted : scope.Permits expr) :
    (Expr.type? expr).isSome := by
  cases expr with
  | constant _ | signal _ | operator _ _ => rfl
  | action _ _ _ => exact permitted.elim

/-- Arguments that suit their definitions and last are those that their own scripts mean. -/
theorem arguments_of_suits {action : String} {number : Nat} {ds : List ValueDef} {args : List Expr}
    (suit : List.Forall₂ Expr.Suits args ds) (last : Expr.ArgumentsLast args ds)
    (permitted : ∀ node ∈ Tree.subtreesAll args, scope.Permits node)
    (lasting : ∀ arg ∈ args, Lasting arg) :
    Arguments scope action number ds (Term.toSexpAll (Expr.terms args)) args := by
  induction suit generalizing number with
  | nil => exact .nil number
  | @cons arg d args ds suits _ ih =>
    obtain _ | ⟨lasts, lastRest⟩ := last
    have inArg : ∀ node ∈ arg.subtrees, scope.Permits node :=
      fun node inside => permitted node (List.mem_append_left _ inside)
    have typed := type?_isSome_of_permits (inArg arg (Tree.mem_subtrees_self arg))
    exact .cons (means_of_permits inArg (lasting arg (by simp)))
      (Expr.conform_eq_ok_iff.2 ((Expr.conforms_self_iff typed).2 ⟨suits, lasts⟩))
      (ih lastRest (fun node inside => permitted node (List.mem_append_right _ inside))
        fun arg member => lasting arg (by simp [member]))

theorem lasting_of_arguments {action : String} : ∀ {number : Nat} {ds : List ValueDef}
    {args : List Expr}, Arguments scope action number ds (Term.toSexpAll (Expr.terms args)) args →
      Expr.ArgumentsLast args ds ∧ ∀ arg ∈ args, Lasting arg
  | _, _, [], arguments => by
    cases arguments
    exact ⟨.nil, nofun⟩
  | _, _, arg :: args, arguments => by
    cases arguments with
    | cons meant fits rest =>
      have conforms := Expr.conform_eq_ok_iff.1 fits
      cases meant.eq_of_becomes (Expr.becomes_of_normalizeArgument conforms.normal)
      have typed := type?_isSome_of_permits (meant.permits arg (Tree.mem_subtrees_self arg))
      obtain ⟨_, lasts⟩ := (Expr.conforms_self_iff typed).1 conforms
      obtain ⟨lastRest, lasting⟩ := lasting_of_arguments rest
      refine ⟨.cons lasts lastRest, fun arg' member => ?_⟩
      rcases List.mem_cons.1 member with rfl | inRest
      · exact lasting_of_means meant
      · exact lasting arg' inRest

/-- Below its root a well-formed expression is permitted. -/
theorem WellFormed.permits_inner {tree : Expr} (wellFormed : scope.WellFormed tree) :
    ∀ node ∈ tree.inner, scope.Permits node := by
  intro node inside
  have inTree := List.mem_of_mem_tail inside
  cases node with
  | constant _ => trivial
  | signal binding => exact wellFormed.signals binding inTree
  | operator op operands => exact wellFormed.operators op operands inTree
  | action once binding args => exact wellFormed.rooted ⟨once, binding, args⟩ inside

theorem meansAny_of_wellFormed {tree : Expr} (wellFormed : scope.WellFormed tree)
    (lasting : Lasting tree) : MeansAny scope (Expr.term tree).toSexp tree := by
  have root : scope.Permits tree → MeansAny scope (Expr.term tree).toSexp tree := by
    intro atRoot
    refine .value (means_of_permits ?_ lasting)
    rw [Tree.subtrees_eq]
    exact List.forall_mem_cons.2 ⟨atRoot, wellFormed.permits_inner⟩
  have inTree := Tree.mem_subtrees_self tree
  cases tree with
  | constant _ => exact root trivial
  | signal binding => exact root (wellFormed.signals binding inTree)
  | operator op operands => exact root (wellFormed.operators op operands inTree)
  | action once binding args =>
    obtain ⟨host, found, performable, suit⟩ := wellFormed.calls ⟨once, binding, args⟩ inTree
    obtain ⟨last, lastingAll⟩ := Expr.lasting_action_iff.1 lasting
    obtain ⟨⟨name, _⟩, definition⟩ := binding
    cases host
    have sameLength : (Term.toSexpAll (Expr.terms args)).length = definition.arguments.length := by
      rw [Expr.length_toSexpAll_terms]
      exact suit.length_eq
    exact .call (.call found sameLength
      (arguments_of_suits suit last wellFormed.permits_inner lastingAll) performable)

/-- What the items behind the keyword of a printed call mean is a call with the same arguments. -/
theorem arguments_of_meansCall {once once' : Bool} {binding : ActionBinding} {args : List Expr}
    {items : List Sexp} {call : Call} (meant : MeansCall scope once' items call)
    (same : call.toExpr = .action once binding args)
    (printed : items = .symbol binding.ref.name :: Term.toSexpAll (Expr.terms args)) :
    Arguments scope binding.ref.name 1 binding.definition.arguments
      (Term.toSexpAll (Expr.terms args)) args := by
  obtain ⟨_, _, arguments, _⟩ := meant
  cases same
  cases printed
  exact arguments

theorem lasting_of_meansAny {tree : Expr} (meant : MeansAny scope (Expr.term tree).toSexp tree) :
    Lasting tree := by
  generalize printed : (Expr.term tree).toSexp = item at meant
  cases meant with
  | value meant =>
    subst printed
    exact lasting_of_means meant
  | @call once items call meant =>
    have inCall := (List.cons.inj (Sexp.list.inj printed)).2.symm
    exact Expr.lasting_action_iff.2 (lasting_of_arguments (arguments_of_meansCall meant rfl inCall))

/-- An expression is what its own script means just if it is well-formed and its constants last. -/
theorem meansAny_self_iff {tree : Expr} :
    MeansAny scope (Expr.term tree).toSexp tree ↔ scope.WellFormed tree ∧ Lasting tree :=
  ⟨fun meant => ⟨meant.wellFormed, lasting_of_meansAny meant⟩,
    fun ⟨wellFormed, lasting⟩ => meansAny_of_wellFormed wellFormed lasting⟩

/-! ## What an own script restates -/

mutual

/-- What an item means is printed as a restatement of the item, also once it is normalized. -/
theorem Means.restates : ∀ {item : Sexp} {expr expr' : Expr}, Means scope item expr →
    Becomes expr expr' → Quotable expr' → item.Restates (Expr.term expr').toSexp
  | _, _, _, .number canonical, .same _, _ => .number canonical
  | _, _, _, .number canonical, .constant normal, _ => by
    cases normal
    exact .number canonical
  | _, _, _, .string _, .same _, _ => .string (.inl rfl)
  | _, _, _, .string _, .constant (d := d) normal, quotable => by
    rw [d.normalize_string] at normal
    split at normal
    · cases normal
      exact .string (.inr (quotable _ (Tree.mem_subtrees_self _)))
    · cases normal
  | _, _, _, .signal _ _, .same _, _ => .list (.cons (.symbol _) (.cons (.symbol _) .nil))
  | _, _, _, .operator admitted meant made, becomes, quotable => by
    obtain ⟨operands', rfl, _, becomeAll⟩ := takes_of_joins (meant.length_eq ▸ admitted)
      (Expr.ofOperands_eq_ok_iff.1 made)
    cases becomes
    exact .list (.cons (.symbol _)
      (meant.restates becomeAll (Expr.quotable_operator_iff.1 quotable)))

theorem MeansAll.restates : ∀ {items : List Sexp} {exprs exprs' : List Expr},
    MeansAll scope items exprs → List.Forall₂ Becomes exprs exprs' →
      (∀ expr ∈ exprs', Quotable expr) →
        Sexp.RestatesAll items (Term.toSexpAll (Expr.terms exprs'))
  | _, _, _, .nil, .nil, _ => .nil
  | _, _, _, .cons meant rest, .cons becomes becomeRest, quotable =>
    .cons (meant.restates becomes (quotable _ (by simp)))
      (rest.restates becomeRest fun expr member => quotable expr (by simp [member]))

end

theorem Arguments.restates {action : String} {number : Nat} {ds : List ValueDef}
    {items : List Sexp} {args : List Expr} (arguments : Arguments scope action number ds items args)
    (quotable : ∀ arg ∈ args, Quotable arg) :
    Sexp.RestatesAll items (Term.toSexpAll (Expr.terms args)) := by
  induction arguments with
  | nil => exact .nil
  | cons meant fits _ ih =>
    have becomes := Expr.becomes_of_normalizeArgument (Expr.conform_eq_ok_iff.1 fits).normal
    exact .cons (meant.restates becomes (quotable _ (by simp)))
      (ih fun arg member => quotable arg (by simp [member]))

theorem MeansAny.restates {item : Sexp} {expr : Expr} (meant : MeansAny scope item expr)
    (quotable : Quotable expr) : item.Restates (Expr.term expr).toSexp := by
  cases meant with
  | value meant => exact meant.restates (.same _) quotable
  | call meant =>
    obtain ⟨_, _, arguments, _⟩ := meant
    exact .list (.cons (.symbol _)
      (.cons (.symbol _) (arguments.restates (Expr.quotable_action_iff.1 quotable))))

/-! ## Compiling an own script -/

/-- The item that a compiled expression is printed as can be written, and is no deeper than the
limit. -/
theorem plain_of_parse {script : String} {tree : Expr} (parsed : scope.parse script = .ok tree)
    (quotable : Quotable tree) :
    (Expr.term tree).toSexp.Plain ∧ (Expr.term tree).toSexp.depth ≤ scope.maxNestingDepth := by
  obtain ⟨item, read, meant⟩ := means_of_parse parsed
  obtain ⟨shallow, _, _, _, _, _, _, written⟩ := Sexp.read_eq_ok_iff.1 read
  have restates := meant.restates quotable
  exact ⟨restates.plain written.plain, restates.depth_eq.symm ▸ shallow⟩

theorem read_toScript_iff {tree : Expr} (plain : (Expr.term tree).toSexp.Plain) {limit : Nat}
    {item : Sexp} : Sexp.read tree.toScript limit = .ok item ↔
      (Expr.term tree).toSexp.depth ≤ limit ∧ item = (Expr.term tree).toSexp := by
  have atLeast : ∀ limit, (Expr.term tree).toSexp.depth ≤ limit →
      Sexp.read tree.toScript limit = .ok (Expr.term tree).toSexp := by
    intro limit shallow
    refine Sexp.read_eq_ok_iff.2 ⟨shallow, [], _, [], ?_, nofun, nofun, plain.writes⟩
    simp [Expr.toScript, Term.toList_toScript]
  constructor
  · intro read
    obtain ⟨shallow, written⟩ := Sexp.read_eq_ok_iff.1 read
    -- with a limit that is large enough for both, both are read
    have wide := Sexp.read_eq_ok_iff.2
      ⟨Nat.le_max_left item.depth (Expr.term tree).toSexp.depth, written⟩
    obtain rfl := Except.ok.inj (wide.symm.trans (atLeast _ (Nat.le_max_right _ _)))
    exact ⟨shallow, rfl⟩
  · rintro ⟨shallow, rfl⟩
    exact atLeast limit shallow

/-- The script of an expression compiles to it just if the script is within the limits, the
expression is well-formed and its constants last. -/
theorem parse_toScript_iff {tree : Expr} (plain : (Expr.term tree).toSexp.Plain) :
    scope.parse tree.toScript = .ok tree ↔
      tree.toScript.utf8ByteSize ≤ scope.maxScriptLength ∧
        (Expr.term tree).toSexp.depth ≤ scope.maxNestingDepth ∧
          scope.WellFormed tree ∧ Lasting tree := by
  rw [← meansAny_self_iff, ← compile_eq_ok_iff]
  constructor
  · intro parsed
    obtain ⟨item, read, meant⟩ := means_of_parse parsed
    obtain ⟨shallow, rfl⟩ := (read_toScript_iff plain).1 read
    refine ⟨?_, shallow, compile_eq_ok_iff.2 meant⟩
    unfold parse at parsed
    split at parsed
    · cases parsed
    · exact Nat.not_lt.1 ‹_›
  · rintro ⟨short, shallow, compiled⟩
    rw [parse, if_neg (Nat.not_lt.2 short), (read_toScript_iff plain).2 ⟨shallow, rfl⟩]
    exact compiled

end Scope

end SignalRules
