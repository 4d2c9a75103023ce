import SignalRules.Proofs.Typing
import SignalRules.Proofs.WellFormed

/-! # The order of evaluation

An expression is evaluated stage by stage: signals are read, and operators are applied to the values
of their operands. Here all stages are written down as they follow from what the signals answer, as
if no error ever ended an evaluation and nothing settled a result early. Evaluation goes through
them in this order up to the first that fails.
-/

namespace SignalRules

namespace Tree

variable {S A : Type}

mutual

theorem actions_eq_nil : ∀ {tree : Tree S A},
    (∀ once binding args, .action once binding args ∉ tree.subtrees) → tree.actions = []
  | .constant _, _ | .signal _, _ => rfl
  | .operator _ _, noAction => actionsAll_eq_nil fun once binding args member =>
    noAction once binding args (.tail _ member)
  | .action once binding args, noAction => (noAction once binding args (by simp [subtrees])).elim

theorem actionsAll_eq_nil : ∀ {trees : List (Tree S A)},
    (∀ once binding args, .action once binding args ∉ subtreesAll trees) → actionsAll trees = []
  | [], _ => rfl
  | _ :: _, noAction => by
    simp only [subtreesAll, List.mem_append, not_or] at noAction
    rw [actionsAll, actions_eq_nil fun _ _ _ => (noAction _ _ _).1,
      actionsAll_eq_nil fun _ _ _ => (noAction _ _ _).2, List.append_nil]

end

end Tree

namespace Outcome

variable {α β : Type}

def value? : Outcome α → Option α
  | .ready a => some a
  | _ => none

def error? : Outcome α → Option ScriptError
  | .failed error => some error
  | _ => none

/-- Only an error counts once there is a reason to put the result off. -/
def putOff (reason : String) : Outcome α → Outcome β
  | .failed error => .failed error
  | _ => .interrupted reason

end Outcome

namespace Expr

/-- What an evaluation does in one step. -/
inductive Stage where
  | read (binding : SignalBinding) (answer : Outcome Value)
  | apply (op : Operator) (values : List Value)
  /-- An action stands where a value is wanted. -/
  | refuse (action : String)

namespace Stage

def outcome : Stage → Outcome Value
  | .read binding answer => answer.andThen fun value =>
    .ofExcept ((binding.definition.result.validate value).map fun _ => value)
  | .apply op values => .ofExcept (op.apply values)
  | .refuse action => .failed (.evaluation (.noValue action))

/-- The error of a signal, of the check on its value or of an operator. -/
def error? (stage : Stage) : Option ScriptError :=
  stage.outcome.error?

/-- Only signals put anything off. -/
def reason? : Stage → Option String
  | .read _ (.interrupted reason) => some reason
  | _ => none

def reading? : Stage → Option (Ref × Outcome Value)
  | .read binding answer => some (binding.ref, answer)
  | _ => none

/-- A stage has a value, or a reason to put the evaluation off, or an error. -/
theorem cases_outcome (stage : Stage) :
    (∃ value, stage.outcome = .ready value ∧ stage.error? = none ∧ stage.reason? = none) ∨
    (∃ reason, stage.outcome = .interrupted reason ∧ stage.error? = none ∧
      stage.reason? = some reason) ∨
    ∃ error, stage.outcome = .failed error ∧ stage.error? = some error := by
  cases stage with
  | refuse action => exact .inr (.inr ⟨_, rfl, rfl⟩)
  | apply op values =>
    cases applied : op.apply values with
    | ok value => simp [outcome, applied, error?, reason?, Outcome.ofExcept, Outcome.error?]
    | error error => simp [outcome, applied, error?, Outcome.ofExcept, Outcome.error?]
  | read binding answer =>
    cases answer with
    | interrupted reason => simp [outcome, error?, reason?, Outcome.andThen, Outcome.error?]
    | failed error => simp [outcome, error?, Outcome.andThen, Outcome.error?]
    | ready value =>
      cases valid : binding.definition.result.validate value with
      | ok _ =>
        simp [outcome, valid, error?, reason?, Outcome.andThen, Outcome.ofExcept, Outcome.error?,
          Except.map]
      | error error =>
        simp [outcome, valid, error?, Outcome.andThen, Outcome.ofExcept, Outcome.error?, Except.map]

end Stage

/-- The first of the errors. -/
def error? (stages : List Stage) : Option ScriptError :=
  stages.findSome? Stage.error?

/-- The first of the reasons for which signals are put off. -/
def reason? (stages : List Stage) : Option String :=
  stages.findSome? Stage.reason?

/-- What was read, in order. -/
def readings (stages : List Stage) : Readings :=
  stages.filterMap Stage.reading?

/-- The stages up to the first that fails, and with it. -/
def untilError : List Stage → List Stage
  | [] => []
  | stage :: stages => if stage.error? = none then stage :: untilError stages else [stage]

theorem error?_append (first rest : List Stage) :
    error? (first ++ rest) = (error? first).or (error? rest) :=
  List.findSome?_append

theorem reason?_append (first rest : List Stage) :
    reason? (first ++ rest) = (reason? first).or (reason? rest) :=
  List.findSome?_append

theorem readings_append (first rest : List Stage) :
    readings (first ++ rest) = readings first ++ readings rest :=
  List.filterMap_append

theorem untilError_append_of_none {first : List Stage} (rest : List Stage)
    (fine : error? first = none) : untilError (first ++ rest) = first ++ untilError rest := by
  induction first with
  | nil => rfl
  | cons stage stages ih =>
    simp only [error?, List.findSome?_eq_none_iff, List.mem_cons, forall_eq_or_imp] at fine
    simp only [List.cons_append, untilError, if_pos fine.1]
    rw [ih (by simpa [error?, List.findSome?_eq_none_iff] using fine.2)]

theorem untilError_of_none {stages : List Stage} (fine : error? stages = none) :
    untilError stages = stages := by
  simpa [untilError] using untilError_append_of_none [] fine

theorem untilError_append_of_some {first : List Stage} {error : ScriptError} (rest : List Stage)
    (failed : error? first = some error) : untilError (first ++ rest) = untilError first := by
  induction first with
  | nil => cases failed
  | cons stage stages ih =>
    simp only [List.cons_append, untilError]
    split
    · rename_i fine
      rw [ih (by simpa [error?, List.findSome?_cons, fine] using failed)]
    · rfl

theorem untilError_singleton (stage : Stage) : untilError [stage] = [stage] := by
  simp [untilError]

/-! ## The course of an evaluation -/

section

variable (source : Readings → Ref → Outcome Value)

mutual

/-- All stages of an evaluation after these readings, and the value if every stage has one. No stage
is left out because of another, but for operators some operand of which has no value. -/
def course (before : Readings) : Expr → List Stage × Option Value
  | .constant value => ([], some value)
  | .signal binding =>
    let stage := Stage.read binding (source before binding.ref)
    ([stage], stage.outcome.value?)
  | .operator op operands =>
    match courseAll before operands with
    | (stages, none) => (stages, none)
    | (stages, some values) =>
      let stage := Stage.apply op values
      (stages ++ [stage], stage.outcome.value?)
  | .action _ binding _ => ([.refuse binding.ref.name], none)

def courseAll (before : Readings) : List Expr → List Stage × Option (List Value)
  | [] => ([], some [])
  | expr :: exprs =>
    let first := course before expr
    let rest := courseAll (before ++ readings first.1) exprs
    (first.1 ++ rest.1, first.2.bind fun value => rest.2.map fun values => value :: values)

end

/-- How an evaluation ends that goes through these stages: with the first error, if there is none
with the first reason to put it off, and if there is none of these either with its value. -/
inductive Concludes {α : Type} : List Stage × Option α → Outcome α → Prop where
  | failed {stages : List Stage} {error : ScriptError} :
    error? stages = some error → Concludes (stages, none) (.failed error)
  | interrupted {stages : List Stage} {reason : String} :
    error? stages = none → reason? stages = some reason →
      Concludes (stages, none) (.interrupted reason)
  | ready {stages : List Stage} {a : α} :
    error? stages = none → reason? stages = none → Concludes (stages, some a) (.ready a)

/-- The run goes through the stages of the course up to the first error. -/
def Follows {α : Type} (run : StateM Readings (Outcome α)) (before : Readings)
    (course : List Stage × Option α) : Prop :=
  ∃ outcome, run before = (outcome, before ++ readings (untilError course.1)) ∧
    Concludes course outcome

variable {source}

theorem Stage.concludes (stage : Stage) :
    Concludes ([stage], stage.outcome.value?) stage.outcome := by
  obtain ⟨value, isReady, noError, noReason⟩ | ⟨reason, isPutOff, noError, isReason⟩ |
    ⟨error, isFailed, isError⟩ := stage.cases_outcome
  · rw [isReady]
    exact .ready (by simp [Expr.error?, noError]) (by simp [Expr.reason?, noReason])
  · rw [isPutOff]
    exact .interrupted (by simp [Expr.error?, noError]) (by simp [Expr.reason?, isReason])
  · rw [isFailed]
    exact .failed (by simp [Expr.error?, isError])

section

variable {α β : Type} {first rest : List Stage} {a? : Option α} {outcome : Outcome α}

/-- Stages that all have values leave the ending to those that follow. -/
theorem Concludes.after (fine : error? first = none) (noReason : reason? first = none)
    (concludes : Concludes (rest, a?) outcome) : Concludes (first ++ rest, a?) outcome := by
  cases concludes with
  | failed failed => exact .failed (by simp [error?_append, fine, failed])
  | interrupted settled putOff =>
    exact .interrupted (by simp [error?_append, fine, settled])
      (by simp [reason?_append, noReason, putOff])
  | ready settled ready =>
    exact .ready (by simp [error?_append, fine, settled])
      (by simp [reason?_append, noReason, ready])

/-- After a reason to put the evaluation off only errors count. -/
theorem Concludes.afterReason {reason : String} (fine : error? first = none)
    (putOff : reason? first = some reason) (concludes : Concludes (rest, a?) outcome) :
    Concludes (first ++ rest, (none : Option β)) (outcome.putOff reason) := by
  have isReason : reason? (first ++ rest) = some reason := by simp [reason?_append, putOff]
  cases concludes with
  | failed failed => exact .failed (by simp [error?_append, fine, failed])
  | interrupted settled _ => exact .interrupted (by simp [error?_append, fine, settled]) isReason
  | ready settled _ => exact .interrupted (by simp [error?_append, fine, settled]) isReason

theorem Concludes.map (f : α → β) (concludes : Concludes (rest, a?) outcome) :
    Concludes (rest, a?.map f) (outcome.map f) := by
  cases concludes with
  | failed failed => exact .failed failed
  | interrupted settled putOff => exact .interrupted settled putOff
  | ready settled ready => exact .ready settled ready

end

theorem evaluate_operator_eq {S : Type} {read : Ref → StateM S (Outcome Value)} (op : Operator)
    {operands : List Expr} {outcome : Outcome (List Value)} {before after : S}
    (run : evaluateAll read operands before = (outcome, after)) :
    evaluate read (.operator op operands) before =
      (outcome.andThen fun values => .ofExcept (op.apply values), after) := by
  rw [evaluate]
  simp only [bind, StateT.bind, run]
  rfl

mutual

theorem evaluate_follows (before : Readings) : ∀ expr : Expr,
    Follows (evaluate (recorded source) expr) before (course source before expr)
  | .constant value => by
    rw [evaluate]
    exact ⟨.ready value, by simp [course, untilError, readings]; rfl, .ready rfl rfl⟩
  | .signal binding => by
    rw [evaluate]
    refine ⟨_, ?_, Stage.concludes _⟩
    simp only [course, untilError_singleton]
    rfl
  | .action _ binding _ => by
    rw [evaluate]
    refine ⟨.failed (.evaluation (.noValue binding.ref.name)), ?_, .failed rfl⟩
    simp only [course, untilError_singleton, readings, Stage.reading?, List.filterMap_cons,
      List.filterMap_nil, List.append_nil]
    rfl
  | .operator op operands => by
    obtain ⟨outcome, run, concludes⟩ := evaluateAll_follows before operands
    have ran := evaluate_operator_eq op run
    rw [course]
    generalize courseAll source before operands = made at ran concludes ⊢
    cases concludes with
    | failed failed => exact ⟨_, ran, .failed failed⟩
    | interrupted settled putOff => exact ⟨_, ran, .interrupted settled putOff⟩
    | @ready _ values settled ready =>
      have last := (Stage.apply op values).concludes
      refine ⟨_, ?_, last.after settled ready⟩
      rw [ran]
      simp only [untilError_append_of_none _ settled, untilError_of_none settled,
        untilError_singleton, readings_append]
      simp [readings, Stage.reading?, Stage.outcome, Outcome.andThen, List.filterMap_cons]

theorem evaluateAll_follows (before : Readings) : ∀ exprs : List Expr,
    Follows (evaluateAll (recorded source) exprs) before (courseAll source before exprs)
  | [] => by
    rw [evaluateAll]
    exact ⟨.ready [], by simp [courseAll, untilError, readings]; rfl, .ready rfl rfl⟩
  | expr :: exprs => by
    obtain ⟨first, headRun, head⟩ := evaluate_follows before expr
    rw [courseAll]
    generalize course source before expr = made at headRun head ⊢
    cases head with
    | @failed _ error failed =>
      refine ⟨.failed error, ?_, .failed (by simp [error?_append, failed])⟩
      rw [evaluateAll_cons_eq headRun rfl, untilError_append_of_some _ failed]
    | @interrupted stages reason settled putOff =>
      rw [untilError_of_none settled] at headRun
      obtain ⟨rest, tailRun, tail⟩ := evaluateAll_follows (before ++ readings stages) exprs
      refine ⟨_, ?_, tail.afterReason settled putOff⟩
      rw [evaluateAll_cons_eq headRun tailRun, untilError_append_of_none _ settled, readings_append,
        List.append_assoc]
      cases rest <;> rfl
    | @ready stages value settled ready =>
      rw [untilError_of_none settled] at headRun
      obtain ⟨rest, tailRun, tail⟩ := evaluateAll_follows (before ++ readings stages) exprs
      refine ⟨_, ?_, (tail.map fun values => value :: values).after settled ready⟩
      rw [evaluateAll_cons_eq headRun tailRun, untilError_append_of_none _ settled, readings_append,
        List.append_assoc]

end

/-! ## Reads -/

variable (source) in
/-- What the source answers when these signals are read one after the other. -/
def answers (before : Readings) : List SignalBinding → Readings
  | [] => []
  | binding :: bindings =>
    let reading := (binding.ref, source before binding.ref)
    reading :: answers (before ++ [reading]) bindings

theorem answers_append (before : Readings) (first rest : List SignalBinding) :
    answers source before (first ++ rest) =
      answers source before first ++
        answers source (before ++ answers source before first) rest := by
  induction first generalizing before with
  | nil => simp [answers]
  | cons binding bindings ih => simp [answers, ih]

mutual

theorem readings_course (before : Readings) : ∀ {expr : Expr}, expr.actions = [] →
    readings (course source before expr).1 = answers source before expr.signals
  | .constant _, _ => rfl
  | .signal _, _ => rfl
  | .action _ _ _, noCall => by cases noCall
  | .operator op operands, noCall => by
    have inside : readings (courseAll source before operands).1 =
        answers source before (Tree.signalsAll operands) := readings_courseAll before noCall
    rw [course, Tree.signals, ← inside]
    split <;> rename_i made
    · rw [made]
    · rw [made, readings_append]
      simp [readings, Stage.reading?, List.filterMap_cons]

theorem readings_courseAll (before : Readings) : ∀ {exprs : List Expr},
    Tree.actionsAll exprs = [] →
      readings (courseAll source before exprs).1 = answers source before (Tree.signalsAll exprs)
  | [], _ => rfl
  | expr :: exprs, noCall => by
    simp only [Tree.actionsAll, List.append_eq_nil_iff] at noCall
    simp only [courseAll, Tree.signalsAll, readings_append, answers_append,
      readings_course before noCall.1, readings_courseAll _ noCall.2]

end

mutual

theorem unrefused_course (before : Readings) : ∀ {expr : Expr}, expr.actions = [] →
    ∀ stage ∈ (course source before expr).1, ∀ action, stage ≠ .refuse action
  | .constant _, _ => by simp [course]
  | .signal _, _ => by simp [course]
  | .action _ _ _, noCall => by cases noCall
  | .operator op operands, noCall => by
    have inside : ∀ stage ∈ (courseAll source before operands).1, ∀ action,
        stage ≠ .refuse action := unrefused_courseAll before noCall
    rw [course]
    split <;> rename_i made <;> rw [made] at inside
    · exact inside
    · intro stage member
      rcases List.mem_append.1 member with inOperands | isLast
      · exact inside stage inOperands
      · simp [List.mem_singleton.1 isLast]

theorem unrefused_courseAll (before : Readings) : ∀ {exprs : List Expr},
    Tree.actionsAll exprs = [] →
      ∀ stage ∈ (courseAll source before exprs).1, ∀ action, stage ≠ .refuse action
  | [], _ => by simp [courseAll]
  | expr :: exprs, noCall => by
    simp only [Tree.actionsAll, List.append_eq_nil_iff] at noCall
    intro stage member
    rcases List.mem_append.1 member with inFirst | inRest
    · exact unrefused_course before noCall.1 stage inFirst
    · exact unrefused_courseAll _ noCall.2 stage inRest

end

/-- There is a value only if no stage failed or was put off. -/
theorem Concludes.ready_of_some {α : Type} {stages : List Stage} {a : α} {outcome : Outcome α}
    (concludes : Concludes (stages, some a) outcome) :
    ∀ stage ∈ stages, ∃ value, stage.outcome = .ready value := by
  cases concludes with
  | ready settled ready =>
    intro stage member
    have noError := List.findSome?_eq_none_iff.1 settled stage member
    have noReason := List.findSome?_eq_none_iff.1 ready stage member
    obtain ⟨value, isReady, _⟩ | ⟨reason, _, _, isReason⟩ | ⟨error, _, isError⟩ :=
      stage.cases_outcome
    · exact ⟨value, isReady⟩
    · simp [noReason] at isReason
    · simp [noError] at isError

theorem course_operator_of_unready {op : Operator} {operands : List Expr} {before : Readings}
    (unready : ∃ stage ∈ (courseAll source before operands).1, ∀ value,
      stage.outcome ≠ .ready value) :
    course source before (.operator op operands) =
      ((courseAll source before operands).1, none) := by
  obtain ⟨stage, member, unready⟩ := unready
  obtain ⟨outcome, _, concludes⟩ :
      Follows (evaluateAll (recorded source) operands) before (courseAll source before operands) :=
    evaluateAll_follows before operands
  rw [course]
  split <;> rename_i made <;> rw [made] at member concludes ⊢
  obtain ⟨value, isReady⟩ := concludes.ready_of_some stage member
  exact (unready value isReady).elim

/-- The expression is evaluated in order. -/
structure Orderly (source : Readings → Ref → Outcome Value) (before : Readings) (tree : Expr) :
    Prop where
  /-- But for errors every occurrence of a signal is read once, from left to right. -/
  reads : readings (course source before tree).1 = answers source before tree.signals
  /-- Errors come from reading a signal and checking its value, or from applying an operator. -/
  unrefused : ∀ stage ∈ (course source before tree).1, ∀ action, stage ≠ .refuse action
  /-- An operator is not applied if a stage of its operands failed or was put off. -/
  withheld : ∀ op operands, .operator op operands ∈ tree.subtrees → ∀ earlier,
    (∃ stage ∈ (courseAll source earlier operands).1, ∀ value, stage.outcome ≠ .ready value) →
      course source earlier (.operator op operands) = ((courseAll source earlier operands).1, none)
  /-- Evaluation stops at the first error. The outcome is this error, or the first reason to put it
  off, or a value. -/
  ending : Follows (evaluate (recorded source) tree) before (course source before tree)

end

end Expr

namespace Scope

variable {scope : Scope}

theorem Means.actions_eq_nil {item : Sexp} {expr : Expr} (meant : Means scope item expr) :
    expr.actions = [] := by
  apply Tree.actions_eq_nil
  intro once binding args member
  exact meant.permits _ member

/-- A script with a value is evaluated in order, whatever its signals answer. -/
theorem parse_orderly {script : String} {tree : Expr} (parsed : scope.parse script = .ok tree)
    (noCall : ∀ call : Call, tree ≠ call.toExpr) (source : Readings → Ref → Outcome Value)
    (before : Readings) : Expr.Orderly source before tree := by
  obtain ⟨item, _, meant⟩ := means_of_parse parsed
  cases meant with
  | call _ => exact (noCall _ rfl).elim
  | value meant =>
    have noAction := meant.actions_eq_nil
    exact {
      reads := Expr.readings_course before noAction
      unrefused := Expr.unrefused_course before noAction
      withheld := fun _ _ _ _ => Expr.course_operator_of_unready
      ending := Expr.evaluate_follows before tree }

/-- A signal that is not ready when it is first read, and later is zero. -/
def starting (readings : Readings) (_ : Ref) : Outcome Value :=
  if readings.isEmpty then .interrupted "Starting" else .ready (.number (.ofInt 0))

/-- The division fails although the first operand is put off, and nothing is read after it. -/
theorem orderly_of_division : ∃ tree : Expr,
    ((Engine.create {} ()).scope ⟨1⟩).parse
        "(and (sig Signals.A) (div 100 (sig Signals.A)) (sig Signals.B))" = .ok tree ∧
      Expr.Orderly starting [] tree ∧
      tree.evaluate (recorded starting) [] = (.failed (.evaluation .divisionByZero),
        [(⟨"Signals.A", ⟨1⟩⟩, .interrupted "Starting"),
          (⟨"Signals.A", ⟨1⟩⟩, .ready (.number (.ofInt 0)))]) := by
  have known : (((Engine.create {} ()).scope ⟨1⟩).parse
      "(and (sig Signals.A) (div 100 (sig Signals.A)) (sig Signals.B))").map (fun tree =>
        ((tree.type?, tree.evaluate (recorded starting) []) :
          Option ValueType × Outcome Value × Readings)) =
      .ok (some .number, .failed (.evaluation .divisionByZero),
        [(⟨"Signals.A", ⟨1⟩⟩, .interrupted "Starting"),
          (⟨"Signals.A", ⟨1⟩⟩, .ready (.number (.ofInt 0)))]) := by
    decide +kernel
  obtain ⟨tree, parsed, found⟩ := Except.map_eq_ok known
  have noCall : ∀ call : Call, tree ≠ call.toExpr := by
    rintro call rfl
    cases congrArg Prod.fst found
  exact ⟨tree, parsed, parse_orderly parsed noCall starting [], congrArg Prod.snd found⟩

end Scope

end SignalRules
