import SignalRules.Engine.Run
import SignalRules.RuleText.Import

/-! # Rule books

A book holds the rules of one host, in the order in which they came, and the records of rules that
were imported although they do not compile.
-/

namespace SignalRules

/-- A rule kept as text, with the error that kept it from compiling. -/
structure InvalidRule where
  record : RuleRecord
  error : ScriptError
  deriving DecidableEq

structure Book where
  host : HostId
  rules : List ListenerId := []
  invalid : List InvalidRule := []
  deriving DecidableEq

namespace Engine

variable {σ : Type}

/-- Take a rule in without activating it. -/
def addRule (rule : Rule) : Run σ ListenerId := do
  let (id, e) := (← get).addListener (.rule rule)
  set e
  return id

/-- Compile a record for a host and take the rule in. -/
def compileRule (host : HostId) (record : RuleRecord) : Run σ (Except ScriptError ListenerId) := do
  match Rule.ofRecord ((← get).scope host) record with
  | .ok rule => return .ok (← addRule rule)
  | .error error => return .error error

end Engine

namespace Book

variable {σ : Type}

def isEmpty (book : Book) : Bool :=
  book.rules.isEmpty && book.invalid.isEmpty

/-- Compile, keep and activate a rule. A rule that cannot be activated is kept all the same. -/
def add (handler : Handler σ) (book : Book) (record : RuleRecord) :
    Run σ (Except ScriptError ListenerId × Book) := do
  match ← Engine.compileRule book.host record with
  | .error error => return (.error error, book)
  | .ok id =>
    let book := { book with rules := book.rules ++ [id] }
    match ← Engine.activate handler id with
    | .error error => return (.error error, book)
    | .ok _ => return (.ok id, book)

/-- Keep and activate the rules of some records; a record that does not compile is kept as it is.
Errors of activation stay with the rules. -/
def addAll (handler : Handler σ) (book : Book) : List RuleRecord → Run σ Book
  | [] => return book
  | record :: records => do
    match ← Engine.compileRule book.host record with
    | .error error =>
      addAll handler { book with invalid := book.invalid ++ [⟨record, error⟩] } records
    | .ok id =>
      discard (Engine.activate handler id)
      addAll handler { book with rules := book.rules ++ [id] } records

/-- Import a text by a policy, or by that of the configuration. Nothing is taken from a text that
cannot be imported. -/
def importText (handler : Handler σ) (book : Book) (text : String)
    (policy : Option ImportPolicy) : Run σ (Except ImportError ImportReport × Book) := do
  let e ← get
  match RuleText.read (some (e.scope book.host)) (policy.getD e.config.importPolicy) text with
  | .error error => return (.error error, book)
  | .ok report => return (.ok report, ← addAll handler book report.rules)

/-- The records of all rules, then those of the invalid ones. -/
def records (e : Engine σ) (book : Book) : List RuleRecord :=
  (book.rules.filterMap e.rule?).map Rule.toRecord ++ book.invalid.map InvalidRule.record

def exportText (e : Engine σ) (book : Book) : String :=
  RuleRecord.render (book.records e)

/-- Check every active rule, for conditions whose signals announce no changes. The result is the
number of checks that failed. -/
def tick (handler : Handler σ) (book : Book) : Run σ Nat :=
  go book.rules
where
  go : List ListenerId → Run σ Nat
    | [] => return 0
    | id :: ids => do
      match ← Engine.check handler id with
      | .ok _ => go ids
      | .error _ => return (← go ids) + 1

/-- Drop the rules that have completed. The result is their number. -/
def removeCompleted (book : Book) : Run σ (Nat × Book) := do
  let completed (e : Engine σ) (id : ListenerId) : Bool :=
    (e.rule? id).any fun rule => rule.state = .completed
  let e ← get
  let gone := book.rules.filter (completed e)
  gone.forM Engine.deactivate
  return (gone.length, { book with rules := book.rules.filter fun id => !completed e id })

def clear (book : Book) : Run σ Book := do
  book.rules.forM Engine.deactivate
  return { book with rules := [], invalid := [] }

end Book

end SignalRules
