import SignalRules.Proofs.Cascade
import SignalRules.Proofs.EvaluationOrder

/-! # Side effects of a call

A call reads the signals of its arguments, checks the values that they come to, and only then acts.
Here all three are written down in the order in which they happen: an action takes place once if
every argument is ready and allowed, and otherwise not at all.
-/

namespace SignalRules

/-- The reason why an outcome is put off, if it is. -/
def Outcome.reason? {α : Type} : Outcome α → Option String
  | .interrupted reason => some reason
  | _ => none

namespace Expr

/-! ## Checks as effects -/

section

variable {m : Type → Type} [Monad m] (validate : ValueDef → Value → m (Except ScriptError Unit))

/-- `validateAll` by checks that may have effects. -/
def validateEach : List ValueDef → List Value → m (Except ScriptError Unit)
  | d :: ds, value :: values => do
    match ← validate d value with
    | .ok _ => validateEach ds values
    | .error e => return .error e
  | _, _ => return .ok ()

/-- `executeCall` by checks that may have effects. -/
def executeWith (read : Ref → m (Outcome Value)) (perform : Ref → List Value → m (Outcome Unit))
    (call : Call) : m (Outcome Completion) := do
  match ← evaluateAll read call.args with
  | .failed e => return .failed e
  | .interrupted reason => return .interrupted reason
  | .ready values =>
    match ← validateEach validate call.binding.definition.arguments values with
    | .error e => return .failed e
    | .ok _ =>
      return (← perform call.binding.ref values).map fun _ => if call.once then .doneOnce else .done

variable [LawfulMonad m]

theorem validateEach_pure (ds : List ValueDef) (values : List Value) :
    validateEach (m := m) (fun d value => pure (d.validate value)) ds values =
      pure (validateAll ds values) := by
  induction ds generalizing values with
  | nil => simp [validateEach, validateAll]
  | cons d ds ih =>
    cases values with
    | nil => simp [validateEach, validateAll]
    | cons value values =>
      rw [validateEach, validateAll, pure_bind]
      cases d.validate value with
      | ok _ => exact ih values
      | error e => rfl

/-- A call is executed in this way, its checks having no effects. -/
theorem executeWith_pure (read : Ref → m (Outcome Value))
    (perform : Ref → List Value → m (Outcome Unit)) (call : Call) :
    executeWith (fun d value => pure (d.validate value)) read perform call =
      executeCall read perform call := by
  unfold executeWith executeCall arguments
  simp only [validateEach_pure, bind_assoc, pure_bind]
  congr 1
  funext outcome
  cases outcome with
  | failed e => rfl
  | interrupted reason => rfl
  | ready values =>
    simp only [Outcome.andThen]
    cases validateAll call.binding.definition.arguments values <;> rfl

end

/-! ## Logs -/

/-- What is done in the course of a call. -/
inductive Deed where
  | read (signal : Ref) (answer : Outcome Value)
  | checked (definition : ValueDef) (value : Value)
  | called (action : Ref) (values : List Value) (outcome : Outcome Unit)

/-- An execution of the action, with the values that it is given and what comes of it. -/
def Deed.call? : Deed → Option (Ref × List Value × Outcome Unit)
  | .called action values outcome => some (action, values, outcome)
  | _ => none

def calls (log : List Deed) : List (Ref × List Value × Outcome Unit) :=
  log.filterMap Deed.call?

/-- Checks are seen by nobody outside. -/
def Deed.isSeen : Deed → Bool
  | .checked _ _ => false
  | _ => true

def seen (log : List Deed) : List Deed :=
  log.filter Deed.isSeen

theorem calls_append (first rest : List Deed) : calls (first ++ rest) = calls first ++ calls rest :=
  List.filterMap_append

theorem seen_append (first rest : List Deed) : seen (first ++ rest) = seen first ++ seen rest :=
  List.filter_append ..

/-- Signals that answer as they like, and actions that do what they like, each time in view of all
that has been seen before. -/
structure World where
  answer : List Deed → Ref → Outcome Value
  act : List Deed → Ref → List Value → Outcome Unit

namespace World

variable (world : World)

def read (signal : Ref) : StateM (List Deed) (Outcome Value) := fun log =>
  let answer := world.answer (seen log) signal
  (answer, log ++ [.read signal answer])

def perform (action : Ref) (values : List Value) : StateM (List Deed) (Outcome Unit) := fun log =>
  let outcome := world.act (seen log) action values
  (outcome, log ++ [.called action values outcome])

def check (definition : ValueDef) (value : Value) : StateM (List Deed) (Except ScriptError Unit) :=
  fun log => (definition.validate value, log ++ [.checked definition value])

/-- Execute a call, each deed being written down. -/
def execute (call : Call) : StateM (List Deed) (Outcome Completion) :=
  executeWith check world.read world.perform call

/-- The readings if these signals are read one after the other. -/
def reads (log : List Deed) : List SignalBinding → List Deed
  | [] => []
  | binding :: bindings =>
    let deed := Deed.read binding.ref (world.answer (seen log) binding.ref)
    deed :: reads (log ++ [deed]) bindings

/-- The outcomes of expressions that are evaluated one after the other, whatever they are. -/
def outcomes (log : List Deed) : List Expr → List (Outcome Value)
  | [] => []
  | expr :: exprs =>
    let (outcome, after) := evaluate world.read expr log
    outcome :: outcomes after exprs

variable {world}

theorem reads_append (log : List Deed) (first rest : List SignalBinding) :
    world.reads log (first ++ rest) =
      world.reads log first ++ world.reads (log ++ world.reads log first) rest := by
  induction first generalizing log with
  | nil => simp [reads]
  | cons binding bindings ih => simp [reads, ih]

/-- Nothing but readings. -/
theorem exists_of_mem_reads {log : List Deed} {bindings : List SignalBinding} {deed : Deed}
    (member : deed ∈ world.reads log bindings) : ∃ signal answer, deed = .read signal answer := by
  induction bindings generalizing log with
  | nil => cases member
  | cons binding bindings ih =>
    rcases List.mem_cons.1 member with rfl | later
    · exact ⟨_, _, rfl⟩
    · exact ih later

theorem calls_eq_nil_of_reads {log deeds : List Deed} {bindings : List SignalBinding}
    (onlyReads : deeds <+: world.reads log bindings) : calls deeds = [] := by
  rw [calls, List.filterMap_eq_nil_iff]
  intro deed member
  obtain ⟨_, _, rfl⟩ := exists_of_mem_reads (onlyReads.subset member)
  rfl

theorem seen_eq_self_of_reads {log deeds : List Deed} {bindings : List SignalBinding}
    (onlyReads : deeds <+: world.reads log bindings) : seen deeds = deeds := by
  rw [seen, List.filter_eq_self]
  intro deed member
  obtain ⟨_, _, rfl⟩ := exists_of_mem_reads (onlyReads.subset member)
  rfl

end World

/-! ## Several outcomes -/

def firstError? (outcomes : List (Outcome Value)) : Option ScriptError :=
  outcomes.findSome? Outcome.error?

def firstReason? (outcomes : List (Outcome Value)) : Option String :=
  outcomes.findSome? Outcome.reason?

/-- What several outcomes come to: the first error, else the first reason, else all values. -/
inductive Gathers : List (Outcome Value) → Outcome (List Value) → Prop where
  | failed {outcomes : List (Outcome Value)} {error : ScriptError} :
    firstError? outcomes = some error → Gathers outcomes (.failed error)
  | interrupted {outcomes : List (Outcome Value)} {reason : String} :
    firstError? outcomes = none → firstReason? outcomes = some reason →
      Gathers outcomes (.interrupted reason)
  | ready (values : List Value) : Gathers (values.map .ready) (.ready values)

theorem firstError?_ready (values : List Value) : firstError? (values.map .ready) = none := by
  simp [firstError?, Outcome.error?]

theorem firstReason?_ready (values : List Value) : firstReason? (values.map .ready) = none := by
  simp [firstReason?, Outcome.reason?]

variable {outcomes : List (Outcome Value)} {rest : Outcome (List Value)}

theorem Gathers.afterReason (reason : String) (gathers : Gathers outcomes rest) :
    Gathers (.interrupted reason :: outcomes) (rest.putOff reason) := by
  cases gathers with
  | failed isError => exact .failed isError
  | interrupted noError _ => exact .interrupted noError rfl
  | ready values => exact .interrupted (firstError?_ready values) rfl

theorem Gathers.afterValue (value : Value) (gathers : Gathers outcomes rest) :
    Gathers (.ready value :: outcomes) (rest.map fun values => value :: values) := by
  cases gathers with
  | failed isError => exact .failed isError
  | interrupted noError isReason => exact .interrupted noError isReason
  | ready values => exact .ready (value :: values)

/-! ## Arguments -/

namespace World

variable {world : World}

/-- A run that reads these signals one after the other; only an error cuts it short. -/
def Reads {α : Type} (world : World) (log : List Deed) (bindings : List SignalBinding)
    (run : Outcome α × List Deed) : Prop :=
  ∃ deeds, run.2 = log ++ deeds ∧ deeds <+: world.reads log bindings ∧
    (run.1.error? = none → deeds = world.reads log bindings)

theorem Reads.nothing {α : Type} (outcome : Outcome α) (log : List Deed) :
    world.Reads log [] (outcome, log) :=
  ⟨[], by simp, List.nil_prefix, fun _ => rfl⟩

theorem Reads.cut {α β : Type} {log after : List Deed} {first rest : List SignalBinding}
    {outcome : Outcome α} (reads : world.Reads log first (outcome, after)) (error : ScriptError) :
    world.Reads log (first ++ rest) ((.failed error : Outcome β), after) := by
  obtain ⟨deeds, same, isPrefix, _⟩ := reads
  refine ⟨deeds, same, ?_, nofun⟩
  rw [reads_append]
  exact isPrefix.trans (List.prefix_append _ _)

theorem Reads.followed {α β : Type} {log middle after : List Deed}
    {first rest : List SignalBinding} {outcome : Outcome α} {outcome' : Outcome β}
    (reads : world.Reads log first (outcome, middle)) (noError : outcome.error? = none)
    (more : world.Reads middle rest (outcome', after)) :
    world.Reads log (first ++ rest) (outcome', after) := by
  obtain ⟨_, rfl, _, whole⟩ := reads
  obtain rfl := whole noError
  obtain ⟨deeds, rfl, isPrefix, whole'⟩ := more
  refine ⟨world.reads log first ++ deeds, by simp, ?_, fun settled => ?_⟩
  · rw [reads_append]
    exact (List.prefix_append_right_inj _).2 isPrefix
  · rw [reads_append, ← whole' settled]

/-- What becomes of an outcome later does not touch what has been read. -/
theorem Reads.imp {α β : Type} {log after : List Deed} {bindings : List SignalBinding}
    {outcome : Outcome α} {outcome' : Outcome β}
    (reads : world.Reads log bindings (outcome, after))
    (errors : outcome'.error? = none → outcome.error? = none) :
    world.Reads log bindings (outcome', after) := by
  obtain ⟨deeds, same, isPrefix, whole⟩ := reads
  exact ⟨deeds, same, isPrefix, fun settled => whole (errors settled)⟩

mutual

theorem evaluate_reads (log : List Deed) : ∀ {expr : Expr}, expr.actions = [] →
    world.Reads log expr.signals (evaluate world.read expr log)
  | .constant value, _ => by
    rw [evaluate]
    exact .nothing _ log
  | .signal binding, _ => by
    rw [evaluate]
    exact ⟨world.reads log [binding], rfl, List.prefix_refl _, fun _ => rfl⟩
  | .action _ _ _, noCall => by cases noCall
  | .operator op operands, noCall => by
    obtain ⟨operandsRead, _⟩ := evaluateAll_reads log noCall
    rcases run : evaluateAll world.read operands log with ⟨outcome, after⟩
    rw [run] at operandsRead
    rw [evaluate_operator_eq op run]
    refine operandsRead.imp ?_
    cases outcome <;> simp [Outcome.andThen, Outcome.error?]

/-- Arguments are read from left to right up to the first error, and this, else the first reason to
put them off, is what they come to. -/
theorem evaluateAll_reads (log : List Deed) : ∀ {exprs : List Expr}, Tree.actionsAll exprs = [] →
    world.Reads log (Tree.signalsAll exprs) (evaluateAll world.read exprs log) ∧
      Gathers (world.outcomes log exprs) (evaluateAll world.read exprs log).1
  | [], _ => by
    rw [evaluateAll]
    exact ⟨.nothing _ log, .ready []⟩
  | expr :: exprs, noCall => by
    simp only [Tree.actionsAll, List.append_eq_nil_iff] at noCall
    have headReads := evaluate_reads log noCall.1
    rcases head : evaluate world.read expr log with ⟨first, middle⟩
    obtain ⟨tailReads, gathers⟩ := evaluateAll_reads middle noCall.2
    rcases tail : evaluateAll world.read exprs middle with ⟨rest, after⟩
    rw [head] at headReads
    rw [tail] at tailReads gathers
    rw [evaluateAll_cons_eq head tail, Tree.signalsAll, outcomes, head]
    cases first with
    | failed error => exact ⟨headReads.cut error, .failed rfl⟩
    | ready value =>
      refine ⟨(headReads.followed rfl tailReads).imp ?_, gathers.afterValue value⟩
      cases rest <;> simp [Outcome.map, Outcome.andThen, Outcome.error?]
    | interrupted reason =>
      have both := headReads.followed rfl tailReads
      have gathered := gathers.afterReason reason
      cases rest with
      | failed error => exact ⟨both, gathered⟩
      | interrupted _ | ready _ => exact ⟨both.imp fun _ => rfl, gathered⟩

end

theorem length_outcomes (world : World) (log : List Deed) (exprs : List Expr) :
    (world.outcomes log exprs).length = exprs.length := by
  induction exprs generalizing log with
  | nil => rfl
  | cons expr exprs ih =>
    rcases ran : evaluate world.read expr log with ⟨outcome, after⟩
    simp [outcomes, ran, ih after]

/-! ## Checks -/

def checks (pairs : List (ValueDef × Value)) : List Deed :=
  pairs.map fun pair => .checked pair.1 pair.2

theorem calls_checks (pairs : List (ValueDef × Value)) : calls (checks pairs) = [] := by
  simp [calls, checks, Deed.call?]

theorem seen_checks (pairs : List (ValueDef × Value)) : seen (checks pairs) = [] := by
  rw [seen, List.filter_eq_nil_iff]
  intro deed member
  obtain ⟨pair, _, rfl⟩ := List.mem_map.1 member
  simp [Deed.isSeen]

/-- How values are checked in order: up to the first that its definition refuses. -/
inductive Checked : List (ValueDef × Value) → Except ScriptError Unit → List Deed → Prop where
  | refused (passed : List (ValueDef × Value)) {rest : List (ValueDef × Value)} {d : ValueDef}
      {value : Value} {error : ScriptError} :
    (∀ pair ∈ passed, pair.1.validate pair.2 = .ok ()) → d.validate value = .error error →
      Checked (passed ++ (d, value) :: rest) (.error error) (checks (passed ++ [(d, value)]))
  | passed {pairs : List (ValueDef × Value)} :
    (∀ pair ∈ pairs, pair.1.validate pair.2 = .ok ()) → Checked pairs (.ok ()) (checks pairs)

theorem Checked.cons {pairs : List (ValueDef × Value)} {result : Except ScriptError Unit}
    {deeds : List Deed} {d : ValueDef} {value : Value} (valid : d.validate value = .ok ())
    (checked : Checked pairs result deeds) :
    Checked ((d, value) :: pairs) result (.checked d value :: deeds) := by
  cases checked with
  | @refused passed rest d' value' error fine refuses =>
    exact .refused ((d, value) :: passed) (by simpa [valid] using fine) refuses
  | passed fine => exact .passed (by simpa [valid] using fine)

theorem Checked.unseen {pairs : List (ValueDef × Value)} {result : Except ScriptError Unit}
    {deeds : List Deed} (checked : Checked pairs result deeds) : seen deeds = [] := by
  cases checked <;> exact seen_checks _

theorem validateEach_checked (ds : List ValueDef) (values : List Value) (log : List Deed) :
    ∃ deeds, validateEach check ds values log = (validateAll ds values, log ++ deeds) ∧
      Checked (ds.zip values) (validateAll ds values) deeds := by
  induction ds generalizing values log with
  | nil => exact ⟨[], by simp [validateEach, validateAll]; rfl, .passed (by simp)⟩
  | cons d ds ih =>
    cases values with
    | nil => exact ⟨[], by simp [validateEach, validateAll]; rfl, .passed (by simp)⟩
    | cons value values =>
      rw [validateEach, validateAll, List.zip_cons_cons]
      simp only [bind, StateT.bind, check]
      cases valid : d.validate value with
      | error error =>
        exact ⟨[.checked d value], rfl, .refused [] (by simp) valid⟩
      | ok _ =>
        obtain ⟨deeds, run, checked⟩ := ih values (log ++ [.checked d value])
        exact ⟨.checked d value :: deeds, by simpa using run, checked.cons valid⟩

/-! ## Calls -/

/-- The ways in which an execution can end, each with all that has been done until then. -/
inductive Executed (world : World) (log : List Deed) (call : Call) :
    Outcome Completion → List Deed → Prop where
  | failed {error : ScriptError} {deeds : List Deed} :
    firstError? (world.outcomes log call.args) = some error →
      deeds <+: world.reads log (Tree.signalsAll call.args) →
        Executed world log call (.failed error) deeds
  | interrupted {reason : String} : firstError? (world.outcomes log call.args) = none →
    firstReason? (world.outcomes log call.args) = some reason →
      Executed world log call (.interrupted reason) (world.reads log (Tree.signalsAll call.args))
  | refused {values : List Value} {error : ScriptError} {deeds : List Deed} :
    world.outcomes log call.args = values.map .ready →
      Checked (call.binding.definition.arguments.zip values) (.error error) deeds →
        Executed world log call (.failed error)
          (world.reads log (Tree.signalsAll call.args) ++ deeds)
  | performed {values : List Value} {outcome : Outcome Unit} {deeds : List Deed} :
    world.outcomes log call.args = values.map .ready →
      Checked (call.binding.definition.arguments.zip values) (.ok ()) deeds →
      world.act (seen log ++ world.reads log (Tree.signalsAll call.args)) call.binding.ref values =
        outcome →
        Executed world log call (outcome.map fun _ => call.completion)
          (world.reads log (Tree.signalsAll call.args) ++ deeds ++
            [.called call.binding.ref values outcome])

/-- Perform the action with these values. -/
def finish (world : World) (call : Call) (values : List Value) (log : List Deed) :
    Outcome Completion × List Deed :=
  let (outcome, after) := world.perform call.binding.ref values log
  (outcome.map fun _ => call.completion, after)

theorem executeWith_eq
    (validate : ValueDef → Value → StateM (List Deed) (Except ScriptError Unit)) {call : Call}
    {log after : List Deed} {outcome : Outcome (List Value)}
    (run : evaluateAll world.read call.args log = (outcome, after)) :
    executeWith validate world.read world.perform call log =
      match outcome with
      | .failed error => (.failed error, after)
      | .interrupted reason => (.interrupted reason, after)
      | .ready values =>
        match validateEach validate call.binding.definition.arguments values after with
        | (.error error, after) => (.failed error, after)
        | (.ok _, after) => world.finish call values after := by
  unfold executeWith
  simp only [bind, StateT.bind, run]
  cases outcome with
  | failed _ | interrupted _ => rfl
  | ready values =>
    simp only [StateT.bind]
    rcases validateEach validate call.binding.definition.arguments values after with
      ⟨_ | _, after⟩ <;> rfl

/-- An execution, and the same with its checks unseen. -/
theorem executed_of_actions_eq_nil (world : World) {call : Call}
    (noCall : Tree.actionsAll call.args = []) (log : List Deed) :
    ∃ result deeds, Executed world log call result deeds ∧
      world.execute call log = (result, log ++ deeds) ∧
      executeCall world.read world.perform call log = (result, log ++ seen deeds) := by
  obtain ⟨⟨readings, same, onlyReads, whole⟩, gathers⟩ :
      world.Reads log (Tree.signalsAll call.args) (evaluateAll world.read call.args log) ∧
        Gathers (world.outcomes log call.args) (evaluateAll world.read call.args log).1 :=
    evaluateAll_reads log noCall
  rcases run : evaluateAll world.read call.args log with ⟨outcome, after⟩
  simp only [run] at same whole gathers
  subst same
  have seenReads := seen_eq_self_of_reads onlyReads
  rw [execute, executeWith_eq check run, ← executeWith_pure, executeWith_eq _ run]
  generalize made : world.outcomes log call.args = outcomes at gathers
  cases gathers with
  | @failed _ error isError =>
    exact ⟨.failed error, readings, .failed (made ▸ isError) onlyReads, rfl, by rw [seenReads]⟩
  | @interrupted _ reason noError isReason =>
    obtain rfl := whole rfl
    exact ⟨.interrupted reason, _, .interrupted (made ▸ noError) (made ▸ isReason), rfl,
      by rw [seenReads]⟩
  | ready values =>
    obtain rfl := whole rfl
    obtain ⟨deeds, checkRun, checked⟩ := validateEach_checked call.binding.definition.arguments
      values (log ++ world.reads log (Tree.signalsAll call.args))
    have unseen := checked.unseen
    have pureRun (after : List Deed) : validateEach (m := StateM (List Deed))
        (fun d value => pure (d.validate value)) call.binding.definition.arguments values after =
          (validateAll call.binding.definition.arguments values, after) := by
      rw [validateEach_pure]
      rfl
    simp only [checkRun, pureRun]
    cases valid : validateAll call.binding.definition.arguments values with
    | error error =>
      rw [valid] at checked
      exact ⟨.failed error, _, .refused made checked, by simp,
        by rw [seen_append, seenReads, unseen, List.append_nil]⟩
    | ok _ =>
      rw [valid] at checked
      -- The action sees no checks, so that its outcome is the same in both runs.
      refine ⟨_, _, .performed made checked rfl, ?_, ?_⟩ <;>
        simp only [finish, perform, ← List.append_assoc, seen_append, seenReads, unseen,
          List.append_nil]
      rfl

end World

/-! ## All or nothing -/

/-- The values are as many as the definitions, and allowed by them one by one. -/
def Allowed (ds : List ValueDef) (values : List Value) : Prop :=
  List.Forall₂ (fun d value => d.validate value = .ok ()) ds values

/-- How an execution goes, in terms of what its arguments come to, one evaluated after the other,
and of what is done if all their signals are read. -/
structure AllOrNothing (call : Call) (outcomes : List (Outcome Value)) (reads : List Deed)
    (result : Outcome Completion) (deeds : List Deed) : Prop where
  /-- The action is performed once at most, -/
  once : (calls deeds).length ≤ 1
  /-- only with the values of all arguments, in order, each of which its definition allows, -/
  called : ∀ action values outcome, (action, values, outcome) ∈ calls deeds →
    action = call.binding.ref ∧ outcomes = values.map .ready ∧
      Allowed call.binding.definition.arguments values
  /-- and if there are such values it is performed. -/
  performed : ∀ values, outcomes = values.map .ready →
    Allowed call.binding.definition.arguments values →
      ∃ outcome, calls deeds = [(call.binding.ref, values, outcome)]
  /-- The first error of an argument is the result; there are readings until then and no more. -/
  failed : ∀ error, firstError? outcomes = some error →
    result = .failed error ∧ calls deeds = [] ∧ deeds <+: reads
  /-- If there is no error, the first reason to put an argument off is the result. All signals are
  read by then, no value is checked and the action is not performed. -/
  interrupted : ∀ reason, firstError? outcomes = none → firstReason? outcomes = some reason →
    result = .interrupted reason ∧ calls deeds = [] ∧ deeds = reads
  doneOnce : result = .ready .doneOnce ↔
    (∃ values, (call.binding.ref, values, .ready ()) ∈ calls deeds) ∧ call.once = true
  done : result = .ready .done ↔
    (∃ values, (call.binding.ref, values, .ready ()) ∈ calls deeds) ∧ call.once = false

theorem AllOrNothing.of_uncalled {call : Call} {outcomes : List (Outcome Value)}
    {reads deeds : List Deed} {result : Outcome Completion} (uncalled : calls deeds = [])
    (unready : ∀ completion, result ≠ .ready completion)
    (unallowed : ∀ values, outcomes = values.map .ready →
      ¬Allowed call.binding.definition.arguments values)
    (failed : ∀ error, firstError? outcomes = some error →
      result = .failed error ∧ deeds <+: reads)
    (interrupted : ∀ reason, firstError? outcomes = none → firstReason? outcomes = some reason →
      result = .interrupted reason ∧ deeds = reads) :
    AllOrNothing call outcomes reads result deeds where
  once := by simp [uncalled]
  called := by simp [uncalled]
  performed values ready allowed := (unallowed values ready allowed).elim
  failed error isError := ⟨(failed error isError).1, uncalled, (failed error isError).2⟩
  interrupted reason noError isReason :=
    ⟨(interrupted reason noError isReason).1, uncalled, (interrupted reason noError isReason).2⟩
  doneOnce := by simp [uncalled, unready]
  done := by simp [uncalled, unready]

theorem allowed_iff_of_length {ds : List ValueDef} {values : List Value}
    (sameLength : ds.length = values.length) :
    Allowed ds values ↔ ∀ pair ∈ ds.zip values, pair.1.validate pair.2 = .ok () := by
  simp [Allowed, List.forall₂_iff_zip, sameLength]

namespace World

variable {world : World} {log deeds : List Deed} {call : Call}

theorem Checked.calls_eq_nil {pairs : List (ValueDef × Value)} {result : Except ScriptError Unit}
    (checked : Checked pairs result deeds) : calls deeds = [] := by
  cases checked <;> exact calls_checks _

/-- Checking succeeds if all pairs are fine. -/
theorem Checked.eq_ok_iff {pairs : List (ValueDef × Value)} {result : Except ScriptError Unit}
    (checked : Checked pairs result deeds) :
    result = .ok () ↔ ∀ pair ∈ pairs, pair.1.validate pair.2 = .ok () := by
  cases checked with
  | @refused passed rest d value error fine refuses =>
    refine ⟨nofun, fun allFine => ?_⟩
    cases (allFine (d, value) (by simp)).symm.trans refuses
  | passed fine => simpa using fine

theorem map_ready_injective {values values' : List Value}
    (same : values.map (Outcome.ready (α := Value)) = values'.map .ready) : values = values' :=
  (List.map_injective_iff.2 fun _ _ => Outcome.ready.inj) same

theorem Executed.allOrNothing {result : Outcome Completion}
    (sameLength : call.args.length = call.binding.definition.arguments.length)
    (executed : Executed world log call result deeds) :
    AllOrNothing call (world.outcomes log call.args)
      (world.reads log (Tree.signalsAll call.args)) result deeds := by
  have noCalls : calls (world.reads log (Tree.signalsAll call.args)) = [] :=
    calls_eq_nil_of_reads (List.prefix_refl _)
  have fit {values : List Value} (ready : world.outcomes log call.args = values.map .ready) :
      call.binding.definition.arguments.length = values.length := by
    rw [← sameLength, ← length_outcomes world log call.args, ready, List.length_map]
  cases executed with
  | @failed error _ isError onlyReads =>
    apply AllOrNothing.of_uncalled (calls_eq_nil_of_reads onlyReads)
    case unready => nofun
    case unallowed =>
      intro values ready
      simp [ready, firstError?_ready] at isError
    case failed =>
      intro error' isError'
      cases isError.symm.trans isError'
      exact ⟨rfl, onlyReads⟩
    case interrupted =>
      intro reason noError
      cases isError.symm.trans noError
  | @interrupted reason noError isReason =>
    apply AllOrNothing.of_uncalled noCalls
    case unready => nofun
    case unallowed =>
      intro values ready
      simp [ready, firstReason?_ready] at isReason
    case failed =>
      intro error isError
      cases isError.symm.trans noError
    case interrupted =>
      intro reason' _ isReason'
      cases isReason.symm.trans isReason'
      exact ⟨rfl, rfl⟩
  | @refused values error deeds ready checked =>
    apply AllOrNothing.of_uncalled
    case uncalled => rw [calls_append, noCalls, checked.calls_eq_nil, List.append_nil]
    case unready => nofun
    case unallowed =>
      intro values' ready' allowed
      obtain rfl := map_ready_injective (ready.symm.trans ready')
      cases checked.eq_ok_iff.2 ((allowed_iff_of_length (fit ready)).1 allowed)
    case failed => simp [ready, firstError?_ready]
    case interrupted => simp [ready, firstReason?_ready]
  | @performed values outcome deeds ready checked acted =>
    have called : calls (world.reads log (Tree.signalsAll call.args) ++ deeds ++
        [.called call.binding.ref values outcome]) = [(call.binding.ref, values, outcome)] := by
      rw [calls_append, calls_append, noCalls, checked.calls_eq_nil]
      rfl
    have allowed := (allowed_iff_of_length (fit ready)).2 (checked.eq_ok_iff.1 rfl)
    have ended : ∀ completion', outcome.map (fun _ => call.completion) = .ready completion' ↔
        outcome = .ready () ∧ call.completion = completion' := by
      cases outcome <;> simp [Outcome.map, Outcome.andThen]
    constructor
    case once => rw [called]; simp
    case called =>
      rw [called]
      intro action values' outcome' member
      cases List.mem_singleton.1 member
      exact ⟨rfl, ready, allowed⟩
    case performed =>
      intro values' ready' _
      obtain rfl := map_ready_injective (ready.symm.trans ready')
      exact ⟨outcome, called⟩
    case failed => simp [ready, firstError?_ready]
    case interrupted => simp [ready, firstReason?_ready]
    case doneOnce | done =>
      rw [ended, called]
      cases isOnce : call.once <;> simp [Call.completion, isOnce, eq_comm]

/-- What becomes of a call that is executed, and the executions of its action in the course. -/
def results (world : World) :
    Expr → List (Outcome Completion × List (Ref × List Value × Outcome Unit))
  | .action once binding args =>
    let (result, log) := world.execute ⟨once, binding, args⟩ []
    [(result, calls log)]
  | _ => []

end World

end Expr

namespace Scope

variable {scope : Scope}

/-- The execution of a compiled call, whatever its signals answer and its action does. The checks of
values, which leave nothing behind, are written down beside the run itself. -/
theorem parse_allOrNothing {script : String} {call : Call}
    (parsed : scope.parse script = .ok call.toExpr) (world : Expr.World) (log : List Expr.Deed) :
    ∃ result deeds,
      call.toExpr.execute world.read world.perform log = (result, log ++ Expr.seen deeds) ∧
      world.execute call log = (result, log ++ deeds) ∧
      Expr.AllOrNothing call (world.outcomes log call.args)
        (world.reads log (Tree.signalsAll call.args)) result deeds := by
  have wellFormed := parse_wellFormed parsed
  have fits := wellFormed.calls call (Tree.mem_subtrees_self _)
  have noCall : Tree.actionsAll call.args = [] := by
    apply Tree.actionsAll_eq_nil
    intro once binding args member
    exact wellFormed.rooted ⟨once, binding, args⟩ member
  obtain ⟨result, deeds, executed, logged, ran⟩ :=
    world.executed_of_actions_eq_nil noCall log
  exact ⟨result, deeds, ran, logged, executed.allOrNothing fits.arguments.length_eq⟩

/-- A valve that is first set to one mode and then, while the call is being executed, to another. -/
def turning : Expr.World where
  answer log _ := .ready (.string (if log.isEmpty then "off" else "auto"))
  act _ _ _ := .ready ()

theorem allOrNothing_of_turning : ∃ call : Call,
    (valve ⟨1⟩).parse
        "(act-once Valve.Turn (sig Valve.Mode) (mul 500 (eq (sig Valve.Mode) 'auto')))" =
      .ok call.toExpr ∧
    ∃ deeds, call.toExpr.execute turning.read turning.perform [] =
        (.ready .doneOnce, Expr.seen deeds) ∧
      turning.execute call [] = (.ready .doneOnce, deeds) ∧
      Expr.calls deeds =
        [(⟨"Valve.Turn", ⟨1⟩⟩, [.string "off", .number (.ofInt 5)], .ready ())] ∧
      Expr.AllOrNothing call (turning.outcomes [] call.args)
        (turning.reads [] (Tree.signalsAll call.args)) (.ready .doneOnce) deeds := by
  have knownEnd : ((valve ⟨1⟩).parse
      "(act-once Valve.Turn (sig Valve.Mode) (mul 500 (eq (sig Valve.Mode) 'auto')))").map
        (fun tree => (turning.results tree).map Prod.fst) = .ok [.ready .doneOnce] := by
    decide +kernel
  have knownCalls : ((valve ⟨1⟩).parse
      "(act-once Valve.Turn (sig Valve.Mode) (mul 500 (eq (sig Valve.Mode) 'auto')))").map
        (fun tree => (turning.results tree).map Prod.snd) =
      .ok [[(⟨"Valve.Turn", ⟨1⟩⟩, [.string "off", .number (.ofInt 5)], .ready ())]] := by
    decide +kernel
  obtain ⟨tree, parsed, ended⟩ := Except.map_eq_ok knownEnd
  obtain ⟨tree', parsed', called⟩ := Except.map_eq_ok knownCalls
  obtain rfl := Except.ok.inj (parsed.symm.trans parsed')
  cases tree with
  | constant _ | signal _ | operator _ _ => cases ended
  | action once binding args =>
    let call : Call := ⟨once, binding, args⟩
    have parsedCall : (valve ⟨1⟩).parse _ = .ok call.toExpr := parsed
    obtain ⟨result, deeds, ran, logged, allOrNothing⟩ := parse_allOrNothing parsedCall turning []
    rw [Expr.World.results, logged] at ended called
    obtain rfl := List.singleton_inj.1 ended
    exact ⟨call, parsedCall, deeds, ran, logged, List.singleton_inj.1 called, allOrNothing⟩

end Scope

end SignalRules
