import Mathlib.Data.List.Forall2
import SignalRules.Proofs.Meaning

/-! # Types

What the checks at the time of compilation promise of an evaluation. In an expression that passes
them every operator has operands in the number and of the types that it takes. Whatever its signals
turn out to be, the expression has a value of its own type, or is put off because a signal is, or
fails with an error of a signal or of arithmetic.
-/

namespace SignalRules

namespace Expr

/-- The expression can have values of this type only. -/
inductive HasType : Expr → ValueType → Prop where
  | constant (value : Value) : HasType (.constant value) value.type
  | signal (binding : SignalBinding) : HasType (.signal binding) binding.definition.result.type
  | comparison (c : Comparison) {left right : Expr} {type : ValueType} :
    HasType left type → HasType right type →
      HasType (.operator (.comparison c) [left, right]) .number
  | numbers {op : Operator} {operands : List Expr} :
    op.arity.Admits operands.length → (∀ operand ∈ operands, HasType operand .number) →
      HasType (.operator op operands) .number

theorem HasType.type?_eq {expr : Expr} {type : ValueType} (typed : HasType expr type) :
    expr.type? = some type := by
  cases typed <;> rfl

/-! ## Compiled expressions have types -/

theorem type_of_normalize {d : ValueDef} {place : ConstantPlace} {value value' : Value}
    (normal : d.normalize place value = .ok value') : value'.type = value.type := by
  cases value with
  | number n =>
    cases normal
    rfl
  | string s =>
    simp only [ValueDef.normalize] at normal
    split at normal
    · cases normal
      rfl
    · cases normal

theorem HasType.of_normalized {d : ValueDef} {place : ConstantPlace} {value value' : Value}
    {type : ValueType} (typed : HasType (.constant value) type)
    (normal : d.normalize place value = .ok value') : HasType (.constant value') type := by
  have sameType := type_of_normalize normal
  cases typed
  rw [← sameType]
  exact .constant value'

/-- Normalizing changes no type. -/
theorem HasType.of_becomes {expr expr' : Expr} {type : ValueType} (typed : HasType expr type)
    (becomes : Becomes expr expr') : HasType expr' type := by
  cases becomes with
  | same => exact typed
  | constant normal => exact typed.of_normalized normal

theorem HasType.of_joins {op : Operator} {operands : List Expr} {expr : Expr}
    (admitted : op.arity.Admits operands.length)
    (typed : ∀ operand ∈ operands, ∃ type, HasType operand type)
    (joins : Joins op operands expr) : HasType expr .number := by
  cases joins with
  | @comparison c left right left' right' normal sameType =>
    obtain ⟨leftType, leftTyped⟩ := typed left (by simp)
    obtain ⟨rightType, rightTyped⟩ := typed right (by simp)
    obtain ⟨leftBecomes, rightBecomes⟩ := becomes_of_normalizeBeside normal
    have leftTyped := leftTyped.of_becomes leftBecomes
    have rightTyped := rightTyped.of_becomes rightBecomes
    have sameType : leftType = rightType := by
      simpa [leftTyped.type?_eq, rightTyped.type?_eq] using sameType
    subst sameType
    exact .comparison c leftTyped rightTyped
  | numbers _ allNumbers =>
    refine .numbers admitted fun operand member => ?_
    obtain ⟨type, operandTyped⟩ := typed operand member
    have isNumber : type = .number := by
      simpa [operandTyped.type?_eq] using allNumbers operand member
    exact isNumber ▸ operandTyped

/-- An argument has the type that its definition wants. -/
theorem HasType.of_conforms {d : ValueDef} {place : ConstantPlace} {expr arg : Expr}
    {type : ValueType} (typed : HasType expr type) (conforms : Conforms d place expr arg) :
    HasType arg d.type := by
  have argTyped := typed.of_becomes (becomes_of_normalizeArgument conforms.normal)
  exact conforms.type type argTyped.type?_eq ▸ argTyped

end Expr

namespace Scope

variable {scope : Scope}

mutual

theorem Means.hasType {item : Sexp} {expr : Expr} :
    Means scope item expr → ∃ type, expr.HasType type
  | .number _ | .string _ => ⟨_, .constant _⟩
  | .signal _ _ => ⟨_, .signal _⟩
  | .operator admitted meant made =>
    ⟨.number, .of_joins (meant.length_eq ▸ admitted) meant.hasType
      (Expr.ofOperands_eq_ok_iff.1 made)⟩

theorem MeansAll.hasType {items : List Sexp} {exprs : List Expr} :
    MeansAll scope items exprs → ∀ expr ∈ exprs, ∃ type, expr.HasType type
  | .nil => by simp
  | .cons meant rest => by
    intro expr member
    rcases List.mem_cons.1 member with rfl | inRest
    · exact meant.hasType
    · exact rest.hasType expr inRest

end

theorem Arguments.hasTypes {action : String} {number : Nat} {ds : List ValueDef}
    {items : List Sexp} {args : List Expr} (arguments : Arguments scope action number ds items args) :
    List.Forall₂ Expr.HasType args (ds.map ValueDef.type) := by
  induction arguments with
  | nil => exact .nil
  | cons meant fits _ ih =>
    obtain ⟨_, typed⟩ := meant.hasType
    exact .cons (typed.of_conforms (Expr.conform_eq_ok_iff.1 fits)) ih

end Scope

/-! ## Operators on values of the right types -/

/-- The errors that arithmetic on numbers can end with. -/
inductive Arithmetic.Fault : ScriptError → Prop where
  | overflow (op : Arithmetic) : Fault (.evaluation (.overflow op))
  | divisionByZero : Fault (.evaluation .divisionByZero)

/-- An operator that takes so many operands takes no other number of them. -/
theorem Arity.eq_of_admits {count actual : Nat} (admitted : Arity.Admits ⟨count, some count⟩ actual) :
    actual = count := by
  have least := admitted.1
  have most := admitted.2 count rfl
  simp only at least
  omega

namespace Operator

/-- The result is a number, unless arithmetic failed. -/
def Computes (result : Except ScriptError Value) : Prop :=
  (∃ value, result = .ok value ∧ value.type = .number) ∨
    ∃ error, result = .error error ∧ Arithmetic.Fault error

theorem Computes.ofBool (b : Bool) : Computes (.ok (Value.ofBool b)) :=
  .inl ⟨_, rfl, rfl⟩

theorem isTrue_of_number {value : Value} (isNumber : value.type = .number) :
    ∃ t, value.isTrue = .ok t := by
  cases value with
  | number n => exact ⟨n.raw != 0, rfl⟩
  | string _ => cases isNumber

theorem mapM_isTrue_of_numbers {values : List Value} (numbers : ∀ v ∈ values, v.type = .number) :
    ∃ ts, values.mapM Value.isTrue = .ok ts := by
  induction values with
  | nil => exact ⟨[], rfl⟩
  | cons value values ih =>
    obtain ⟨t, isTrue⟩ := isTrue_of_number (numbers value (by simp))
    obtain ⟨ts, areTrue⟩ := ih fun v member => numbers v (by simp [member])
    refine ⟨t :: ts, ?_⟩
    simp only [List.mapM_cons, isTrue, areTrue]
    rfl

theorem computes_arithmetic (a : Arithmetic) {left right : Value}
    (leftNumber : left.type = .number) (rightNumber : right.type = .number) :
    Computes (a.apply left right) := by
  cases left with
  | string _ => cases leftNumber
  | number m =>
    cases right with
    | string _ => cases rightNumber
    | number n =>
      unfold Arithmetic.apply Arithmetic.onNumbers
      cases a with
      | add | sub | mul =>
        simp only
        split
        · exact .inl ⟨_, rfl, rfl⟩
        · exact .inr ⟨_, rfl, .overflow _⟩
      | div =>
        simp only
        split
        · exact .inr ⟨_, rfl, .divisionByZero⟩
        · split
          · exact .inl ⟨_, rfl, rfl⟩
          · exact .inr ⟨_, rfl, .overflow _⟩

/-- Two values of one type can be compared. -/
theorem computes_comparison (c : Comparison) {left right : Value}
    (sameType : left.type = right.type) : Computes ((comparison c).apply [left, right]) := by
  have admitted : (comparison c).arity.Admits [left, right].length := by
    simp [arity, Arity.Admits]
  unfold apply
  rw [if_pos admitted]
  cases left <;> cases right <;> first | exact .ofBool _ | cases sameType

theorem computes_numbers {op : Operator} {values : List Value}
    (admitted : op.arity.Admits values.length) (numbers : ∀ v ∈ values, v.type = .number) :
    Computes (op.apply values) := by
  have two : ∀ {a b : Value}, values = [a, b] → a.type = .number ∧ b.type = .number := by
    rintro a b rfl
    exact ⟨numbers a (by simp), numbers b (by simp)⟩
  cases op with
  | comparison c =>
    obtain ⟨a, b, rfl⟩ := List.length_eq_two.1 (Arity.eq_of_admits admitted)
    obtain ⟨left, right⟩ := two rfl
    exact computes_comparison c (left.trans right.symm)
  | connective c =>
    obtain ⟨ts, areTrue⟩ := mapM_isTrue_of_numbers numbers
    unfold apply
    rw [if_pos admitted]
    cases c with
    | and | or =>
      simp only [areTrue]
      exact .ofBool _
  | not =>
    obtain ⟨a, rfl⟩ := List.length_eq_one_iff.1 (Arity.eq_of_admits admitted)
    obtain ⟨t, isTrue⟩ := isTrue_of_number (numbers a (by simp))
    unfold apply
    rw [if_pos admitted]
    simp only [isTrue]
    exact .ofBool _
  | arithmetic a =>
    obtain ⟨x, y, rfl⟩ := List.length_eq_two.1 (Arity.eq_of_admits admitted)
    obtain ⟨left, right⟩ := two rfl
    unfold apply
    rw [if_pos admitted]
    exact computes_arithmetic a left right

end Operator

/-- The outcome meets the condition on its ending. -/
def Outcome.Ends {α : Type} (ready : α → Prop) (putOff : String → Prop)
    (failed : ScriptError → Prop) : Outcome α → Prop
  | .ready a => ready a
  | .interrupted reason => putOff reason
  | .failed error => failed error

/-! ## Evaluation against any source -/

/-- Signals that have been read, with their outcomes. -/
abbrev Readings := List (Ref × Outcome Value)

/-- Read from a source that may answer as it likes, each time in view of all that has been read
before, and keep a record. -/
def recorded (source : Readings → Ref → Outcome Value) (signal : Ref) :
    StateM Readings (Outcome Value) :=
  fun readings => (source readings signal, readings ++ [(signal, source readings signal)])

namespace Expr

/-- One of the signals was put off for this reason. -/
def PutOff (bindings : List SignalBinding) (readings : Readings) (reason : String) : Prop :=
  ∃ binding ∈ bindings, (binding.ref, .interrupted reason) ∈ readings

/-- The errors that evaluation can end with. -/
inductive Fault (bindings : List SignalBinding) (readings : Readings) : ScriptError → Prop where
  /-- The signal that was read last failed. -/
  | source {earlier : Readings} {binding : SignalBinding} {error : ScriptError} :
    binding ∈ bindings → readings = earlier ++ [(binding.ref, .failed error)] →
      Fault bindings readings error
  /-- The value that was read last is not one that its signal may have. -/
  | rejected {earlier : Readings} {binding : SignalBinding} {value : Value} {error : ScriptError} :
    binding ∈ bindings → readings = earlier ++ [(binding.ref, .ready value)] →
      binding.definition.result.validate value = .error error → Fault bindings readings error
  | arithmetic {error : ScriptError} : Arithmetic.Fault error → Fault bindings readings error

/-- Whatever was read before, evaluation ends with a good result, or because of the signals that it
has read, or with a fault of arithmetic. -/
def Safe {α : Type} (bindings : List SignalBinding) (good : α → Prop)
    (run : StateM Readings (Outcome α)) : Prop :=
  ∀ before, ∃ readings, (run before).2 = before ++ readings ∧
    (run before).1.Ends good (PutOff bindings readings) (Fault bindings readings)

variable {α : Type} {bindings bindings' : List SignalBinding} {readings : Readings}

theorem PutOff.mono {reason : String} (putOff : PutOff bindings readings reason)
    (more : bindings ⊆ bindings') (before after : Readings) :
    PutOff bindings' (before ++ readings ++ after) reason := by
  obtain ⟨binding, member, wasRead⟩ := putOff
  exact ⟨binding, more member, by simp [wasRead]⟩

theorem Fault.mono {error : ScriptError} (fault : Fault bindings readings error)
    (more : bindings ⊆ bindings') (before : Readings) :
    Fault bindings' (before ++ readings) error := by
  cases fault with
  | @source earlier _ _ member same =>
    exact .source (more member) (by rw [same, List.append_assoc])
  | @rejected earlier _ _ _ member same invalid =>
    exact .rejected (more member) (by rw [same, List.append_assoc]) invalid
  | arithmetic fault => exact .arithmetic fault

section

variable {source : Readings → Ref → Outcome Value}

theorem safe_signal (binding : SignalBinding) :
    Safe [binding] (fun v => v.type = binding.definition.result.type)
      (readChecked (recorded source) binding) := by
  intro before
  refine ⟨[(binding.ref, source before binding.ref)], rfl, ?_⟩
  change Outcome.Ends _ _ _ ((source before binding.ref).andThen fun value =>
    .ofExcept ((binding.definition.result.validate value).map fun _ => value))
  cases source before binding.ref with
  | interrupted reason => exact ⟨binding, by simp, by simp⟩
  | failed error => exact @Fault.source _ _ [] _ _ (by simp) rfl
  | ready value =>
    cases valid : binding.definition.result.validate value with
    | error error =>
      simp only [Outcome.andThen, valid, Except.map]
      exact @Fault.rejected _ _ [] _ _ _ (by simp) rfl valid
    | ok _ =>
      simp only [Outcome.andThen, valid, Except.map]
      unfold ValueDef.validate at valid
      split at valid
      · assumption
      · cases valid

theorem evaluateAll_cons_eq {S : Type} {read : Ref → StateM S (Outcome Value)} {expr : Expr}
    {exprs : List Expr} {first : Outcome Value} {rest : Outcome (List Value)}
    {before middle after : S} :
    evaluate read expr before = (first, middle) →
    evaluateAll read exprs middle = (rest, after) →
    evaluateAll read (expr :: exprs) before =
      match first with
      | .failed error => (.failed error, middle)
      | .interrupted reason =>
        match rest with
        | .failed error => (.failed error, after)
        | _ => (.interrupted reason, after)
      | .ready value => (rest.map fun values => value :: values, after) := by
  intro head tail
  rw [evaluateAll]
  cases first with
  | failed _ =>
    simp only [bind, StateT.bind, head]
    rfl
  | ready _ =>
    simp only [bind, StateT.bind, head, tail]
    rfl
  | interrupted _ =>
    simp only [bind, StateT.bind, head, tail]
    cases rest <;> rfl

/-- Expressions that are safe one by one are safe in a row. -/
theorem safe_evaluateAll {exprs : List Expr} {types : List ValueType}
    (each : List.Forall₂ (fun expr type =>
      Safe expr.signals (fun v => v.type = type) (evaluate (recorded source) expr)) exprs types) :
    Safe (Tree.signalsAll exprs) (fun vs => List.Forall₂ (fun v type => v.type = type) vs types)
      (evaluateAll (recorded source) exprs) := by
  induction each with
  | nil =>
    intro before
    refine ⟨[], ?_⟩
    rw [evaluateAll]
    exact ⟨(List.append_nil before).symm, .nil⟩
  | @cons expr type exprs types safe _ ih =>
    intro before
    have inHead : expr.signals ⊆ Tree.signalsAll (expr :: exprs) :=
      List.subset_append_left _ _
    have inTail : Tree.signalsAll exprs ⊆ Tree.signalsAll (expr :: exprs) :=
      List.subset_append_right _ _
    rcases headRun : evaluate (recorded source) expr before with ⟨first, middle⟩
    rcases tailRun : evaluateAll (recorded source) exprs middle with ⟨rest, after⟩
    rw [evaluateAll_cons_eq headRun tailRun]
    obtain ⟨head, afterHead, headEnds⟩ := safe before
    rw [headRun] at afterHead headEnds
    obtain ⟨tail, afterTail, tailEnds⟩ := ih middle
    rw [tailRun] at afterTail tailEnds
    simp only at afterHead afterTail headEnds tailEnds
    subst afterHead afterTail
    rw [List.append_assoc]
    cases first with
    | failed error => exact ⟨head, rfl, Fault.mono headEnds inHead []⟩
    | interrupted reason =>
      have putOff := PutOff.mono headEnds inHead [] tail
      cases rest with
      | failed error => exact ⟨head ++ tail, rfl, Fault.mono tailEnds inTail head⟩
      | interrupted _ | ready _ => exact ⟨head ++ tail, rfl, putOff⟩
    | ready value =>
      refine ⟨head ++ tail, rfl, ?_⟩
      cases rest with
      | failed error => exact Fault.mono tailEnds inTail head
      | interrupted reason =>
        have putOff := PutOff.mono tailEnds inTail head []
        rwa [List.append_nil] at putOff
      | ready values => exact .cons headEnds tailEnds

/-- What is computed from values of the right types is safe if the values are. -/
theorem Safe.computes {good : List Value → Prop} {run : StateM Readings (Outcome (List Value))}
    {compute : List Value → Except ScriptError Value} (safe : Safe bindings good run)
    (computes : ∀ values, good values → Operator.Computes (compute values)) :
    Safe bindings (fun v => v.type = .number)
      (do return (← run).andThen fun values => .ofExcept (compute values)) := by
  intro before
  obtain ⟨readings, after, ends⟩ := safe before
  refine ⟨readings, after, ?_⟩
  change Outcome.Ends _ _ _ ((run before).1.andThen fun values => .ofExcept (compute values))
  cases outcome : (run before).1 with
  | interrupted _ | failed _ =>
    rw [outcome] at ends
    exact ends
  | ready values =>
    rw [outcome] at ends
    simp only [Outcome.andThen]
    obtain ⟨value, computed, isNumber⟩ | ⟨error, stopped, fault⟩ := computes values ends
    · rw [computed]
      exact isNumber
    · rw [stopped]
      exact .arithmetic fault

/-- Evaluation of a typed expression is safe. -/
theorem HasType.safe {expr : Expr} {type : ValueType} (typed : HasType expr type) :
    Safe expr.signals (fun v => v.type = type) (evaluate (recorded source) expr) := by
  induction typed with
  | constant value =>
    intro before
    refine ⟨[], ?_⟩
    rw [evaluate]
    exact ⟨(List.append_nil before).symm, rfl⟩
  | signal binding =>
    rw [evaluate]
    exact safe_signal binding
  | comparison c _ _ left right =>
    rw [evaluate]
    refine (safe_evaluateAll (.cons left (.cons right .nil))).computes ?_
    rintro _ (_ | ⟨leftType, _ | ⟨rightType, _ | _⟩⟩)
    exact Operator.computes_comparison c (leftType.trans rightType.symm)
  | @numbers op operands admitted _ each =>
    rw [evaluate]
    have rows : List.Forall₂ (fun expr type =>
        Safe expr.signals (fun v => v.type = type) (evaluate (recorded source) expr))
        operands (operands.map fun _ => .number) := by
      rw [List.forall₂_map_right_iff, List.forall₂_same]
      exact each
    refine (safe_evaluateAll rows).computes fun values typed => ?_
    rw [List.forall₂_map_right_iff] at typed
    have numbers : ∀ v ∈ values, v.type = .number := by
      intro v member
      obtain ⟨i, inValues, rfl⟩ := List.getElem_of_mem member
      exact typed.get inValues (typed.length_eq ▸ inValues)
    exact Operator.computes_numbers (typed.length_eq ▸ admitted) numbers

/-! ## Calls -/

/-- The values are as many and of such types as the definitions want. -/
def Suit (values : List Value) (ds : List ValueDef) : Prop :=
  List.Forall₂ (fun v d => v.type = d.type) values ds

/-- Values of the right types are refused by validators only. -/
theorem validator_of_validateAll {values : List Value} {ds : List ValueDef} {error : ScriptError}
    (suit : Suit values ds) (refused : validateAll ds values = .error error) :
    ∃ value d check, (value, d) ∈ values.zip ds ∧ d.validator = some check ∧
      check value = .error error := by
  induction suit with
  | nil =>
    simp [validateAll] at refused
  | @cons value d values ds sameType _ ih =>
    rw [validateAll] at refused
    split at refused
    · obtain ⟨value', d', check, member, isValidator, refuses⟩ := ih refused
      exact ⟨value', d', check, by simp [member], isValidator, refuses⟩
    · rename_i invalid
      cases refused
      rw [ValueDef.validate, if_pos sameType] at invalid
      split at invalid
      · rename_i check isValidator
        exact ⟨value, d, check, by simp, isValidator, invalid⟩
      · cases invalid

/-- The errors that a call can end with, where `performed` is what the action makes of its
arguments. -/
inductive CallFault (call : Call) (readings : Readings) (performed : List Value → Outcome Unit) :
    ScriptError → Prop where
  | evaluation {error : ScriptError} : Fault (Tree.signalsAll call.args) readings error →
    CallFault call readings performed error
  /-- A validator refuses an argument of the right type. -/
  | refused {values : List Value} {value : Value} {d : ValueDef}
      {check : Value → Except ScriptError Unit} {error : ScriptError} :
    Suit values call.binding.definition.arguments →
      (value, d) ∈ values.zip call.binding.definition.arguments → d.validator = some check →
        check value = .error error → CallFault call readings performed error
  | performed {values : List Value} {error : ScriptError} :
    Suit values call.binding.definition.arguments → performed values = .failed error →
      CallFault call readings performed error

/-- Whatever the signals turn out to be and the action does, its arguments suit it, and the call
ends as the action does, or because of its arguments' signals, arithmetic or validators. -/
structure SafeCall (source : Readings → Ref → Outcome Value) (call : Call) : Prop where
  arguments : Safe (Tree.signalsAll call.args) (Suit · call.binding.definition.arguments)
    (evaluateAll (recorded source) call.args)
  ending : ∀ (perform : Ref → List Value → StateM Readings (Outcome Unit)) (before : Readings),
    ∃ readings, (evaluateAll (recorded source) call.args before).2 = before ++ readings ∧
      (execute (recorded source) perform call.toExpr before).1.Ends
        (fun completion => completion = (if call.once then .doneOnce else .done) ∧
          ∃ values, Suit values call.binding.definition.arguments ∧
            (perform call.binding.ref values (before ++ readings)).1 = .ready ())
        (fun reason => PutOff (Tree.signalsAll call.args) readings reason ∨
          ∃ values, Suit values call.binding.definition.arguments ∧
            (perform call.binding.ref values (before ++ readings)).1 = .interrupted reason)
        (CallFault call readings fun values =>
          (perform call.binding.ref values (before ++ readings)).1)

theorem executeCall_eq {call : Call} {perform : Ref → List Value → StateM Readings (Outcome Unit)}
    {outcome : Outcome (List Value)} {before after : Readings} :
    evaluateAll (recorded source) call.args before = (outcome, after) →
    (executeCall (recorded source) perform call before).1 =
      (outcome.andThen fun values =>
        .ofExcept ((validateAll call.binding.definition.arguments values).map fun _ => values)).andThen
          fun values => (perform call.binding.ref values after).1.map fun _ =>
            if call.once then .doneOnce else .done := by
  intro run
  unfold executeCall arguments
  simp only [bind, StateT.bind, run]
  cases outcome with
  | interrupted _ | failed _ => rfl
  | ready values =>
    simp only [Outcome.andThen]
    cases validateAll call.binding.definition.arguments values <;> rfl

theorem SafeCall.of_hasTypes {call : Call}
    (typed : List.Forall₂ HasType call.args (call.binding.definition.arguments.map ValueDef.type)) :
    SafeCall source call := by
  have arguments : Safe (Tree.signalsAll call.args) (Suit · call.binding.definition.arguments)
      (evaluateAll (recorded source) call.args) := by
    intro before
    obtain ⟨readings, after, ends⟩ := safe_evaluateAll (typed.imp fun _ _ => HasType.safe) before
    simp only [List.forall₂_map_right_iff] at ends
    exact ⟨readings, after, ends⟩
  refine ⟨arguments, fun perform before => ?_⟩
  obtain ⟨readings, after, ends⟩ := arguments before
  refine ⟨readings, after, ?_⟩
  rcases run : evaluateAll (recorded source) call.args before with ⟨outcome, state⟩
  rw [run] at after ends
  simp only at after ends
  subst after
  change Outcome.Ends _ _ _ (executeCall (recorded source) perform call before).1
  rw [executeCall_eq run]
  cases outcome with
  | interrupted reason => exact .inl ends
  | failed error => exact .evaluation ends
  | ready values =>
    cases valid : validateAll call.binding.definition.arguments values with
    | error error =>
      obtain ⟨_, _, _, member, isValidator, refuses⟩ := validator_of_validateAll ends valid
      simp only [Outcome.andThen, valid]
      exact .refused ends member isValidator refuses
    | ok _ =>
      simp only [Outcome.andThen, Outcome.ofExcept, Except.map, Outcome.map, valid]
      cases performed : (perform call.binding.ref values (before ++ readings)).1 with
      | ready _ => exact ⟨rfl, values, ends, performed⟩
      | interrupted reason => exact .inr ⟨values, ends, performed⟩
      | failed error => exact .performed ends performed

end

end Expr

/-- A script that the compiler accepts is safe to evaluate or to execute. -/
theorem Scope.parse_sound {scope : Scope} {script : String} {tree : Expr}
    (parsed : scope.parse script = .ok tree) (source : Readings → Ref → Outcome Value) :
    ((∀ call : Call, tree ≠ call.toExpr) → ∃ type, tree.type? = some type ∧
      Expr.Safe tree.signals (fun v => v.type = type) (tree.evaluate (recorded source))) ∧
    ∀ call : Call, tree = call.toExpr → Expr.SafeCall source call := by
  obtain ⟨item, _, meant⟩ := means_of_parse parsed
  cases meant with
  | value meant =>
    obtain ⟨type, typed⟩ := meant.hasType
    refine ⟨fun _ => ⟨type, typed.type?_eq, typed.safe⟩, ?_⟩
    rintro call rfl
    cases typed
  | @call once items call meant =>
    refine ⟨fun notCall => absurd rfl (notCall call), ?_⟩
    intro call' same
    obtain rfl := Call.toExpr_injective same
    cases meant with
    | call _ _ arguments _ => exact .of_hasTypes arguments.hasTypes

theorem parse_sound_of_quotient : ∃ tree : Expr,
    ((Engine.create {} ()).scope ⟨1⟩).parse "(div 100 (sig Signals.A))" = .ok tree ∧
      tree.type? = some .number ∧ ∀ source, Expr.Safe tree.signals (fun v => v.type = .number)
        (tree.evaluate (recorded source)) := by
  have known : (((Engine.create {} ()).scope ⟨1⟩).parse "(div 100 (sig Signals.A))").map
      Expr.type? = .ok (some .number) := by decide +kernel
  obtain ⟨tree, parsed, isNumber⟩ := Except.map_eq_ok known
  have noCall : ∀ call : Call, tree ≠ call.toExpr := by
    rintro call rfl
    cases isNumber
  refine ⟨tree, parsed, isNumber, fun source => ?_⟩
  obtain ⟨type, isType, safe⟩ := (Scope.parse_sound parsed source).1 noCall
  cases Option.some.inj (isType.symm.trans isNumber)
  exact safe

end SignalRules
