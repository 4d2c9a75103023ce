import SignalRules.Proofs.SideEffects

/-! # Hand-built trees

Nothing in the type of a tree keeps to what a parser promises: an operator may have any number of
operands, and an action may stand where a value is wanted. Here operands and their values are taken
by number, as from arrays, where a number may be out of range. The count of the operands is checked
after their values were collected and before any of them is taken, and this is enough: no tree
makes a run stop.
-/

namespace SignalRules

/-- The result of an operator with so many operands for these values, which are taken by number;
`none` if a number is out of range. -/
def Operator.applyAt (op : Operator) (count : Nat) (values : List Value) :
    Option (Except ScriptError Value) :=
  if op.arity.Admits count then
    match op with
    | .comparison c => do
      let left ← values[0]?
      let right ← values[1]?
      return (left.cmp right).map fun o => Value.ofBool (c.holds o)
    | .connective .and => some ((values.mapM Value.isTrue).map fun ts => Value.ofBool (ts.all id))
    | .connective .or => some ((values.mapM Value.isTrue).map fun ts => Value.ofBool (ts.any id))
    | .not => do
      let value ← values[0]?
      return value.isTrue.map fun t => Value.ofBool !t
    | .arithmetic a => do
      let left ← values[0]?
      let right ← values[1]?
      return a.apply left right
  else some (.error (.evaluation (.operandCount op count)))

/-- A count of operands that is also that of the values keeps every number in range. -/
theorem Operator.applyAt_length (op : Operator) (values : List Value) :
    op.applyAt values.length values = some (op.apply values) := by
  unfold applyAt apply
  by_cases admitted : op.arity.Admits values.length
  · rw [if_pos admitted, if_pos admitted]
    cases op with
    | comparison c =>
      obtain ⟨left, right, rfl⟩ := List.length_eq_two.1 (Arity.eq_of_admits admitted)
      rfl
    | connective c => cases c <;> rfl
    | not =>
      obtain ⟨value, rfl⟩ := List.length_eq_one_iff.1 (Arity.eq_of_admits admitted)
      rfl
    | arithmetic a =>
      obtain ⟨left, right, rfl⟩ := List.length_eq_two.1 (Arity.eq_of_admits admitted)
      rfl
  · rw [if_neg admitted, if_neg admitted]

theorem Operator.apply_of_not_admits {op : Operator} {values : List Value}
    (refused : ¬op.arity.Admits values.length) :
    op.apply values = .error (.evaluation (.operandCount op values.length)) := by
  unfold apply
  exact if_neg refused

namespace Expr

/-! ## Runs that take values by number -/

section

variable {m : Type → Type} [Monad m] (read : Ref → m (Outcome Value))

mutual

/-- `evaluate` with values taken by number; `none` if a number is out of range. -/
def evaluateAt : Expr → OptionT m (Outcome Value)
  | .constant value => return .ready value
  | .signal binding => OptionT.lift (readChecked read binding)
  | .operator op operands => do
    match ← collectAt operands [] none with
    | .failed e => return .failed e
    | .interrupted reason => return .interrupted reason
    | .ready values =>
      let result ← OptionT.mk (pure (op.applyAt operands.length values))
      return .ofExcept result
  | .action _ binding _ => return .failed (.evaluation (.noValue binding.ref.name))

/-- Collect the values of expressions behind others, and the first reason to put them off. -/
def collectAt : List Expr → List Value → Option String → OptionT m (Outcome (List Value))
  | [], _, some reason => return .interrupted reason
  | [], values, none => return .ready values
  | expr :: exprs, values, reason? => do
    match ← evaluateAt expr with
    | .failed e => return .failed e
    | .interrupted reason => collectAt exprs values (reason?.or (some reason))
    | .ready value => collectAt exprs (values ++ [value]) reason?

end

/-- `execute` with values taken by number. -/
def executeAt (perform : Ref → List Value → m (Outcome Unit)) (expr : Expr) :
    OptionT m (Outcome Completion) :=
  match expr with
  | .action once binding args => do
    match ← collectAt read args [] none with
    | .failed e => return .failed e
    | .interrupted reason => return .interrupted reason
    | .ready values =>
      match validateAll binding.definition.arguments values with
      | .error e => return .failed e
      | .ok _ =>
        return (← OptionT.lift (perform binding.ref values)).map fun _ =>
          (⟨once, binding, args⟩ : Call).completion
  | _ => return .failed (.evaluation (.notAction (toScript expr)))

end

section

variable {m : Type → Type} [Monad m] [LawfulMonad m] {read : Ref → m (Outcome Value)}

/-- Whatever follows an evaluation needs to be known for as many values as there are expressions
only. -/
theorem evaluateAll_bind_congr {α : Type} {exprs : List Expr} {f g : Outcome (List Value) → m α}
    (same : ∀ outcome, (∀ values, outcome = .ready values → values.length = exprs.length) →
      f outcome = g outcome) :
    evaluateAll read exprs >>= f = evaluateAll read exprs >>= g := by
  induction exprs generalizing f g with
  | nil =>
    simp only [evaluateAll, pure_bind]
    exact same _ (by simp)
  | cons expr exprs ih =>
    simp only [evaluateAll, bind_assoc]
    congr 1
    funext first
    cases first with
    | failed error =>
      simp only [pure_bind]
      exact same _ (by simp)
    | interrupted reason =>
      simp only [bind_assoc]
      refine ih fun rest _ => ?_
      cases rest <;>
        · simp only [pure_bind]
          exact same _ (by simp)
    | ready value =>
      simp only [bind_assoc, pure_bind]
      refine ih fun rest fits => same _ ?_
      cases rest with
      | ready values =>
        rintro _ ⟨⟩
        simp [fits values rfl]
      | interrupted _ | failed _ => simp [Outcome.map, Outcome.andThen]

/-- What is collected behind other values, after a reason to put them off if there is one. -/
def collected (values : List Value) : Option String → Outcome (List Value) → Outcome (List Value)
  | some reason, rest => rest.putOff reason
  | none, rest => rest.map fun more => values ++ more

theorem collected_nil_none (rest : Outcome (List Value)) : collected [] none rest = rest := by
  cases rest <;> rfl

theorem collected_or_some (values : List Value) (reason? : Option String) (reason : String)
    (rest : Outcome (List Value)) :
    collected values (reason?.or (some reason)) rest =
      collected values reason? (rest.putOff reason) := by
  cases reason? <;> cases rest <;> rfl

theorem collected_concat (values : List Value) (value : Value) (reason? : Option String)
    (rest : Outcome (List Value)) :
    collected (values ++ [value]) reason? rest =
      collected values reason? (rest.map fun more => value :: more) := by
  cases reason? <;> cases rest <;> simp [collected, Outcome.putOff, Outcome.map, Outcome.andThen]

theorem collected_failed (values : List Value) (reason? : Option String) (error : ScriptError) :
    collected values reason? (.failed error) = .failed error := by
  cases reason? <;> rfl

mutual

theorem evaluateAt_eq : ∀ expr : Expr, evaluateAt read expr = OptionT.lift (evaluate read expr)
  | .constant _ | .action _ _ _ => by
    rw [evaluateAt, evaluate, OptionT.lift_pure]
  | .signal _ => by
    rw [evaluateAt, evaluate]
  | .operator op operands => by
    rw [evaluateAt, evaluate, collectAt_eq operands [] none]
    apply OptionT.ext
    simp only [OptionT.run_bind, OptionT.run_lift, Option.elimM, bind_assoc, pure_bind, Option.elim,
      map_eq_pure_bind]
    refine evaluateAll_bind_congr fun outcome fits => ?_
    rw [collected_nil_none]
    cases outcome with
    | failed _ | interrupted _ => rfl
    | ready values => simp [Outcome.andThen, ← fits values rfl, Operator.applyAt_length]

theorem collectAt_eq : ∀ (exprs : List Expr) (values : List Value) (reason? : Option String),
    collectAt read exprs values reason? =
      OptionT.lift (collected values reason? <$> evaluateAll read exprs)
  | [], values, some reason => by
    simp [collectAt, evaluateAll, collected, Outcome.putOff]
  | [], values, none => by
    simp [collectAt, evaluateAll, collected, Outcome.map, Outcome.andThen]
  | expr :: exprs, values, reason? => by
    rw [collectAt, evaluateAt_eq expr, evaluateAll, map_bind, OptionT.lift_bind]
    congr 1
    funext first
    cases first with
    | failed error => simp [collected_failed]
    | interrupted reason =>
      simp only [collectAt_eq exprs, map_eq_pure_bind, bind_assoc, collected_or_some]
      congr 2
      funext rest
      cases rest <;> simp [Outcome.putOff]
    | ready value =>
      simp only [collectAt_eq exprs, map_eq_pure_bind, bind_assoc, pure_bind, collected_concat]

end

theorem executeAt_eq (perform : Ref → List Value → m (Outcome Unit)) (expr : Expr) :
    executeAt read perform expr = OptionT.lift (execute read perform expr) := by
  cases expr with
  | constant _ | signal _ | operator _ _ =>
    rw [executeAt, execute, OptionT.lift_pure] <;> simp
  | action once binding args =>
    simp only [executeAt, execute, executeCall, arguments, collectAt_eq args [] none,
      collected_nil_none, map_eq_pure_bind, bind_assoc, pure_bind, OptionT.lift_bind]
    congr 1
    funext outcome
    cases outcome with
    | failed _ | interrupted _ => simp [Outcome.andThen]
    | ready values =>
      cases valid : validateAll binding.definition.arguments values with
      | error error => simp [Outcome.andThen, Outcome.ofExcept, valid, Except.map]
      | ok _ =>
        simp [Outcome.andThen, Outcome.ofExcept, valid, Except.map, Call.completion,
          OptionT.lift_bind, -bind_pure_comp]

/-! ## Wrong numbers of operands -/

/-- The outcomes of expressions that are evaluated one after the other up to the first error. -/
def evaluateEach (read : Ref → m (Outcome Value)) : List Expr → m (List (Outcome Value))
  | [] => return []
  | expr :: exprs => do
    match ← evaluate read expr with
    | .failed e => return [.failed e]
    | outcome => return outcome :: (← evaluateEach read exprs)

/-- What outcomes come to: the first error, else the first reason, else all values. -/
def gather : List (Outcome Value) → Outcome (List Value)
  | [] => .ready []
  | .failed e :: _ => .failed e
  | .interrupted reason :: outcomes => (gather outcomes).putOff reason
  | .ready value :: outcomes => (gather outcomes).map fun values => value :: values

theorem gathers_gather : ∀ outcomes : List (Outcome Value), Gathers outcomes (gather outcomes)
  | [] => .ready []
  | .failed _ :: _ => .failed rfl
  | .interrupted reason :: outcomes => (gathers_gather outcomes).afterReason reason
  | .ready value :: outcomes => (gathers_gather outcomes).afterValue value

theorem evaluateAll_eq_gather (exprs : List Expr) :
    evaluateAll read exprs = gather <$> evaluateEach read exprs := by
  induction exprs with
  | nil => simp [evaluateAll, evaluateEach, gather]
  | cons expr exprs ih =>
    rw [evaluateAll, evaluateEach, map_bind]
    congr 1
    funext first
    cases first with
    | failed error => simp [gather]
    | interrupted reason =>
      simp only [ih, map_eq_pure_bind, bind_assoc, pure_bind, gather]
      congr 1
      funext outcomes
      cases gather outcomes <;> rfl
    | ready value => simp [ih, gather]

/-- The first error of these outcomes, else the first reason among them, else another outcome. -/
def unlessStopped (outcomes : List (Outcome Value)) (otherwise : Outcome Value) : Outcome Value :=
  match firstError? outcomes, firstReason? outcomes with
  | some error, _ => .failed error
  | none, some reason => .interrupted reason
  | none, none => otherwise

theorem Gathers.andThen_eq {outcomes : List (Outcome Value)} {rest : Outcome (List Value)}
    (gathers : Gathers outcomes rest) (otherwise : Outcome Value) :
    (rest.andThen fun _ => otherwise) = unlessStopped outcomes otherwise := by
  cases gathers with
  | failed isError => simp [unlessStopped, isError, Outcome.andThen]
  | interrupted noError isReason => simp [unlessStopped, noError, isReason, Outcome.andThen]
  | ready values =>
    simp [unlessStopped, firstError?_ready, firstReason?_ready, Outcome.andThen]

theorem isReady_unlessStopped (outcomes : List (Outcome Value)) (error : ScriptError) :
    (unlessStopped outcomes (.failed error)).isReady = false := by
  unfold unlessStopped
  split <;> rfl

theorem evaluate_of_not_admits {op : Operator} {operands : List Expr}
    (refused : ¬op.arity.Admits operands.length) :
    evaluate read (.operator op operands) =
      (fun outcomes => unlessStopped outcomes
        (.failed (.evaluation (.operandCount op operands.length)))) <$>
          evaluateEach read operands := by
  have counted : evaluate read (.operator op operands) =
      (fun values => values.andThen fun _ =>
        .failed (.evaluation (.operandCount op operands.length))) <$>
          evaluateAll read operands := by
    rw [evaluate, map_eq_pure_bind]
    refine evaluateAll_bind_congr fun outcome fits => ?_
    cases outcome with
    | failed _ | interrupted _ => rfl
    | ready values =>
      rw [← fits values rfl] at refused ⊢
      simp [Outcome.andThen, Operator.apply_of_not_admits refused, Outcome.ofExcept]
  rw [counted, evaluateAll_eq_gather, Functor.map_map]
  congr 1
  funext outcomes
  exact (gathers_gather outcomes).andThen_eq _

end

/-! ## Texts with operands taken by number -/

/-- `operatorText` with operands and their texts taken by number. -/
def operatorTextAt (op : Operator) (operands : List Expr) (texts : List String) : Option String :=
  if op.arity.Admits operands.length then
    match op with
    | .comparison c => do
      let left ← operands[0]?
      let right ← operands[1]?
      let leftText ← texts[0]?
      let rightText ← texts[1]?
      return besideText left right leftText ++ " " ++ c.sign ++ " " ++
        besideText right left rightText
    | .not => do
      let text ← texts[0]?
      return "not (" ++ text ++ ")"
    | .connective c =>
      some ((" " ++ c.keyword ++ " ").intercalate (List.zipWith joinedText operands texts))
    | .arithmetic a => do
      let leftText ← texts[0]?
      let rightText ← texts[1]?
      return "(" ++ leftText ++ " " ++ a.sign ++ " " ++ rightText ++ ")"
  else some (op.keyword ++ "(" ++ ", ".intercalate texts ++ ")")

mutual

/-- `describe` with operands taken by number. -/
def describeAt : Expr → Option String
  | .constant value => some value.toLiteral
  | .signal binding => some binding.definition.display
  | .operator op operands => do
    let texts ← describeAllAt operands
    operatorTextAt op operands texts
  | .action once binding args => do
    let texts ← describeAllAt args
    return callText once binding.definition args texts

def describeAllAt : List Expr → Option (List String)
  | [] => some []
  | expr :: exprs => do
    let text ← describeAt expr
    let texts ← describeAllAt exprs
    return text :: texts

end

theorem operatorTextAt_eq (op : Operator) {operands : List Expr} {texts : List String}
    (sameLength : texts.length = operands.length) :
    operatorTextAt op operands texts = some (operatorText op operands texts) := by
  unfold operatorTextAt operatorText
  by_cases admitted : op.arity.Admits operands.length
  · rw [if_pos admitted, if_pos admitted]
    cases op with
    | comparison c =>
      obtain ⟨left, right, rfl⟩ := List.length_eq_two.1 (Arity.eq_of_admits admitted)
      obtain ⟨leftText, rightText, rfl⟩ := List.length_eq_two.1 sameLength
      rfl
    | connective c => rfl
    | not =>
      obtain ⟨operand, rfl⟩ := List.length_eq_one_iff.1 (Arity.eq_of_admits admitted)
      obtain ⟨text, rfl⟩ := List.length_eq_one_iff.1 sameLength
      rfl
    | arithmetic a =>
      obtain ⟨left, right, rfl⟩ := List.length_eq_two.1 (Arity.eq_of_admits admitted)
      obtain ⟨leftText, rightText, rfl⟩ := List.length_eq_two.1 sameLength
      rfl
  · rw [if_neg admitted, if_neg admitted]

theorem length_describeAll (exprs : List Expr) : (describeAll exprs).length = exprs.length := by
  induction exprs with
  | nil => rfl
  | cons expr exprs ih => simp [describeAll, ih]

mutual

theorem describeAt_eq : ∀ expr : Expr, describeAt expr = some (describe expr)
  | .constant _ | .signal _ => by rw [describeAt, describe]
  | .operator op operands => by
    rw [describeAt, describeAllAt_eq operands, describe]
    exact operatorTextAt_eq op (length_describeAll operands)
  | .action once binding args => by
    rw [describeAt, describeAllAt_eq args, describe]
    rfl

theorem describeAllAt_eq : ∀ exprs : List Expr, describeAllAt exprs = some (describeAll exprs)
  | [] => by rw [describeAllAt, describeAll]
  | expr :: exprs => by
    rw [describeAllAt, describeAt_eq expr, describeAllAt_eq exprs, describeAll]
    rfl

end

/-! ## Script texts -/

mutual

/-- `toScript` with each operand written behind those before it. None is taken by number. -/
def scriptAt : Expr → Option String
  | .constant value => some value.toLiteral
  | .signal binding => some ("(sig " ++ binding.ref.name ++ ")")
  | .operator op operands => do
    let written ← writeBehind ("(" ++ op.keyword) operands
    return written ++ ")"
  | .action once binding args => do
    let written ←
      writeBehind ("(" ++ (if once then "act-once" else "act") ++ " " ++ binding.ref.name) args
    return written ++ ")"

def writeBehind (written : String) : List Expr → Option String
  | [] => some written
  | expr :: exprs => do
    let script ← scriptAt expr
    writeBehind (written ++ " " ++ script) exprs

end

mutual

theorem scriptAt_eq : ∀ expr : Expr, scriptAt expr = some (toScript expr)
  | .constant _ | .signal _ => by
    rw [scriptAt, toScript, term, Tree.map, Term.toScript]
  | .operator op operands => by
    rw [scriptAt, writeBehind_eq, toScript, term, Tree.map, Term.toScript, Tree.mapAll_eq_map]
    rfl
  | .action once binding args => by
    rw [scriptAt, writeBehind_eq, toScript, term, Tree.map, Term.toScript, Tree.mapAll_eq_map]
    rfl

theorem writeBehind_eq : ∀ (exprs : List Expr) (written : String),
    writeBehind written exprs = some (written ++ Term.toScriptAll (exprs.map term))
  | [], written => by
    simp [writeBehind, Term.toScriptAll]
  | expr :: exprs, written => by
    rw [writeBehind, scriptAt_eq expr]
    simp [writeBehind_eq exprs, Term.toScriptAll, toScript, String.append_assoc]

end

/-! ## All trees -/

/-- No tree takes an operand or a value that is not there, whatever signals answer and actions do:
to evaluate, execute, describe or write it by number comes to what it is without. An operator with a
wrong number of operands is never ready: the first error of an operand, else the first reason to put
one off, else the number is what it comes to. -/
theorem every_number_in_range {m : Type → Type} [Monad m] [LawfulMonad m]
    (read : Ref → m (Outcome Value)) (perform : Ref → List Value → m (Outcome Unit))
    (expr : Expr) :
    evaluateAt read expr = OptionT.lift (evaluate read expr) ∧
    executeAt read perform expr = OptionT.lift (execute read perform expr) ∧
    describeAt expr = some (describe expr) ∧
    scriptAt expr = some (toScript expr) ∧
    ∀ op operands, expr = .operator op operands → ¬op.arity.Admits operands.length →
      evaluate read expr =
        (fun outcomes => unlessStopped outcomes
          (.failed (.evaluation (.operandCount op operands.length)))) <$>
            evaluateEach read operands ∧
      Outcome.isReady <$> evaluate read expr = (fun _ => false) <$> evaluateEach read operands := by
  refine ⟨evaluateAt_eq expr, executeAt_eq perform expr, describeAt_eq expr, scriptAt_eq expr, ?_⟩
  rintro op operands rfl refused
  have evaluated : evaluate read (.operator op operands) = _ := evaluate_of_not_admits refused
  refine ⟨evaluated, ?_⟩
  rw [evaluated, Functor.map_map]
  congr 1
  funext outcomes
  exact isReady_unlessStopped outcomes _

/-- The operand of `not` is missing, or there is one too many, the first of which is put off. -/
theorem every_number_in_range_of_not :
    let ticker : Expr := .signal ⟨⟨"Debug.Ticker", ⟨0⟩⟩, ⟨"Debug.Ticker", "Debug ticker", .number⟩⟩
    let read : Ref → Id (Outcome Value) := fun _ => .interrupted "not ready"
    LawfulMonad Id ∧
    (¬Operator.not.arity.Admits 0 ∧ describeAt (.operator .not []) = some "not()" ∧
      evaluate read (.operator .not []) = .failed (.evaluation (.operandCount .not 0))) ∧
    ¬Operator.not.arity.Admits 2 ∧
      evaluate read (.operator .not [ticker, .constant (.string "x")]) = .interrupted "not ready" := by
  intro ticker read
  have none : ¬Operator.not.arity.Admits 0 := by decide
  have two : ¬Operator.not.arity.Admits 2 := by decide
  obtain ⟨-, -, described, -, refused⟩ :=
    every_number_in_range read (fun _ _ => .ready ()) (.operator .not [])
  obtain ⟨-, -, -, -, refusedTwo⟩ := every_number_in_range read (fun _ _ => .ready ())
    (.operator .not [ticker, .constant (.string "x")])
  exact ⟨inferInstance, ⟨none, described, (refused .not [] rfl none).1⟩, two,
    (refusedTwo .not _ rfl two).1⟩

end Expr

end SignalRules
