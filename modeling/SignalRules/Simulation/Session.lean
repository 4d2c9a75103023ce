import SignalRules.Book
import SignalRules.Simulation.Probe

/-! # Simulated sessions

A session is an engine in a simulated world, together with the expressions and books that its user
has named. `Step` lists what the user can do, `Answer` what comes of it.
-/

namespace SignalRules.Simulation

/-- A tree built by hand, before its names are looked up. -/
inductive Sketch where
  | constant (value : Value)
  | signal (name : String)
  | operator (keyword : String) (operands : List Sketch)
  | action (name : String) (once : Bool) (args : List Sketch)

namespace Sketch

mutual

/-- Look up the names of a sketch, those in operands and arguments first. Nothing else is
checked. -/
def build (scope : Scope) : Sketch → Except ScriptError Expr
  | .constant value => .ok (.constant value)
  | .signal name => scope.bindSignal name
  | .operator keyword operands =>
    match buildAll scope operands with
    | .error error => .error error
    | .ok operands =>
      match Operator.ofKeyword? keyword with
      | some op => .ok (.operator op operands)
      | none => .error (.reported .parsing "no such operator")
  | .action name once args =>
    match buildAll scope args with
    | .error error => .error error
    | .ok args => do
      let definition ← scope.action name
      scope.executor name
      return .action once ⟨⟨name, scope.host⟩, definition⟩ args

def buildAll (scope : Scope) : List Sketch → Except ScriptError (List Expr)
  | [] => .ok []
  | sketch :: sketches =>
    match build scope sketch with
    | .error error => .error error
    | .ok expr => (buildAll scope sketches).map fun exprs => expr :: exprs

end

end Sketch

inductive ScriptRole where
  | any
  | condition
  | action
  deriving DecidableEq

def ScriptRole.parse (role : ScriptRole) (scope : Scope) (script : String) :
    Except ScriptError Expr :=
  match role with
  | .any => scope.parse script
  | .condition => scope.parseCondition script
  | .action => (scope.parseCall script).map Call.toExpr

/-- Something that the user of a session does. -/
inductive Step where
  | react (reaction : Reaction)
  | probe (probe : Probe)
  | get (name : String)
  /-- Parse a script, then evaluate it and execute it. -/
  | script (host : String) (role : ScriptRole) (text : String)
  | parse (id : String) (host : String) (role : ScriptRole) (text : String)
  | build (id : String) (host : String) (tree : Sketch)
  | clone (id : String) (source : String) (host : String)
  | evaluate (id : String)
  | execute (id : String)
  /-- Whether two expressions say the same. -/
  | same (left right : String)
  | names (host : String)
  | signalInfo (name : String) (host : String) (shown : Option Value)
  | actionInfo (name : String) (host : String)
  /-- Perform an action with values that nobody checks. -/
  | call (name : String) (host : String) (values : List Value)
  | subscriptions (device : String) (signal : String) (host : String)
  | register (device : DeviceScript)
  | rule (id : String) (host : String) (record : RuleRecord)
  | ruleOf (id : String) (host : String) (condition action : String)
  | ruleInfo (id : String)
  | bookAdd (host : String) (record : RuleRecord)
  | bookImport (host : String) (text : String) (policy : Option ImportPolicy)
  | bookExport (host : String)
  | bookTick (host : String)
  | bookRemoveCompleted (host : String)
  | bookClear (host : String)
  | bookInfo (host : String)
  /-- Read rule text without importing it. -/
  | checkText (host : String) (text : String) (policy : ImportPolicy)

inductive Answer where
  | result (result : Except ScriptError Unit)
  | done
  | value (value : Option Value)
  | expression (expr : Except ScriptError Expr)
  | ran (expr : Expr) (value : Outcome Value) (completion : Outcome Expr.Completion)
  | evaluation (outcome : Outcome Value)
  | execution (outcome : Outcome Expr.Completion)
  | truth (b : Bool)
  | names (signals actions providers : List String)
  | signalInfo (definition : Except ScriptError (SignalDef × Option String))
      (source : Outcome Value)
  | actionInfo (definition : Except ScriptError ActionDef)
  | called (outcome : Outcome Unit)
  | subscriptions (hosts : List HostId) (listeners : List ListenerId)
  | providers (names : Except Engine.DuplicateProvider (List String))
  | rule (rule : Except ScriptError ListenerId)
  | report (report : Except ImportError ImportReport)
  | text (text : String)
  | count (n : Nat)
  | book (book : Book)
  /-- The step uses a name that stands for nothing. -/
  | unknown (name : String)

/-- What the user of a session sees of its journal. -/
inductive LogEntry where
  | read (signal : Ref)
  | exec (action : Ref) (values : List Value)
  | install (action : Ref)
  | uninstall (action : Ref)
  | probe (name : String) (signal : String) (pending : List Callback)
  | reaction (probe : String) (result : Except ScriptError Unit)
  | message (host : HostId) (text : String)

structure Session where
  engine : Engine World
  exprs : List (String × Expr) := []
  books : List (String × Book) := []

/-- A computation in a session; none if requests nest too deeply. -/
abbrev SessionM (α : Type) := StateT Session Option α

namespace Session

def depth : Nat := 100000

def create (config : Config) (devices : List DeviceScript) :
    Except Engine.DuplicateProvider Session := do
  let engine ← devices.foldlM (fun e device => e.register device.toDevice)
    (Engine.create config ({} : World))
  return { engine }

/-! ## Views -/

/-- How a listener is shown: a probe by its name, a rule by its number among the rules. -/
def label (s : Session) (id : ListenerId) : String :=
  match s.engine.listener? id with
  | some (.external name _) => name
  | some (.rule _) =>
    let before := s.engine.listeners.take (id.number - 1)
    let rules := before.countP fun
      | .rule _ => true
      | .external _ _ => false
    s!"r{rules}"
  | none => id.text

def hostName (s : Session) (host : HostId) : String :=
  s.engine.foreign.hostName host

def isDeviceName (s : Session) (name : String) : Bool :=
  match s.engine.provider name with
  | .ok (.device _) => true
  | _ => false

/-- What an entry of the journal shows. Installations that no device knows of are left out. -/
def logEntry? (s : Session) : Event → Option LogEntry
  | .read signal _ => if s.isDeviceName signal.name then some (.read signal) else none
  | .called action values => if s.isDeviceName action.name then some (.exec action values) else none
  | .installed _ _ (.error (.lookup (.unknownAction _))) => none
  | .installed _ action _ => if s.isDeviceName action.name then some (.install action) else none
  | .uninstalled _ action => if s.isDeviceName action.name then some (.uninstall action) else none
  | .logged host message => some (.message host message)
  | .entered callback pending =>
    match s.engine.listener? callback.listener with
    | some (.external name _) => some (.probe name callback.signal pending)
    | _ => none
  | .remarked probe result => some (.reaction probe result)
  | _ => none

def log (s : Session) (start : Nat) : List LogEntry :=
  (s.engine.journal.drop start).filterMap s.logEntry?

def byName {α : Type} (entries : List (String × α)) : List (String × α) :=
  entries.mergeSort fun a b => a.1 ≤ b.1

def globals (s : Session) : List (String × Value) :=
  byName (s.engine.globals.values.map fun entry => (Globals.fullName entry.1, entry.2))

/-- The latest rule of each name. -/
def rules (s : Session) : List (String × ListenerId) :=
  byName (s.engine.foreign.rules.eraseDupsBy fun a b => a.1 = b.1)

def booksByHost (s : Session) : List (String × Book) :=
  byName s.books

/-! ## Parts of steps -/

def onEngine {α : Type} (run : Run World α) : SessionM α := fun s =>
  (run s.engine).map fun (a, engine) => (a, { s with engine })

def handler : Handler World :=
  Engine.handle depth

def host (name : String) : SessionM HostId := do
  let (id, foreign) := (← get).engine.foreign.hostId name
  modify fun s => { s with engine := { s.engine with foreign } }
  return id

def scope (name : String) : SessionM Scope := do
  let id ← host name
  return (← get).engine.scope id

def keep (id : String) (expr : Except ScriptError Expr) : SessionM Answer := do
  match expr with
  | .ok expr => modify fun s => { s with exprs := (id, expr) :: s.exprs }
  | .error _ => pure ()
  return .expression expr

def withExpr (id : String) (f : Expr → SessionM Answer) : SessionM Answer := do
  match (← get).exprs.lookup id with
  | some expr => f expr
  | none => return .unknown id

def nameRule (name : String) (id : ListenerId) : SessionM Unit :=
  modify fun s =>
    let w := s.engine.foreign
    { s with engine := { s.engine with foreign := { w with rules := (name, id) :: w.rules } } }

def evaluate (expr : Expr) : SessionM (Outcome Value) :=
  onEngine (expr.evaluate Engine.read)

def execute (expr : Expr) : SessionM (Outcome Expr.Completion) :=
  onEngine (expr.execute Engine.read (Engine.perform handler))

/-- The book of a host; a host not met before gets an empty one. -/
def book (name : String) : SessionM Book := do
  let id ← host name
  match (← get).books.lookup name with
  | some book => return book
  | none =>
    let book : Book := { host := id }
    modify fun s => { s with books := s.books ++ [(name, book)] }
    return book

def putBook (name : String) (book : Book) : SessionM Unit :=
  modify fun s => { s with
    books := s.books.map fun entry => if entry.1 = name then (name, book) else entry }

def onBook {α : Type} (name : String) (run : Book → Run World (α × Book)) : SessionM α := do
  let (a, book) ← onEngine (run (← book name))
  putBook name book
  return a

/-! ## Steps -/

/-- Add a probe; it takes over the name from any other. -/
def addProbe (probe : Probe) : SessionM Answer := do
  let s ← get
  let (id, engine) := s.engine.addListener (probe.listener ⟨s.engine.listeners.length + 1⟩)
  let w := engine.foreign
  set { s with engine := { engine with foreign := { w with probes := (probe.name, id) :: w.probes } } }
  return .done

/-- Look up a signal and read its source once. -/
def signalInfo (name hostName : String) (shown : Option Value) : SessionM Answer := do
  let ref : Ref := ⟨name, ← host hostName⟩
  let e := (← get).engine
  let definition := (e.signalDef ref).map fun d => (d, shown.map d.result.format)
  match e.checkSource ref with
  | .error error => return .signalInfo definition (.failed error)
  | .ok _ => return .signalInfo definition (← onEngine (Engine.read ref))

def call (name hostName : String) (values : List Value) : SessionM Answer := do
  let ref : Ref := ⟨name, ← host hostName⟩
  match (← get).engine.checkExecutor ref with
  | .error error => return .called (.failed error)
  | .ok _ => return .called (← onEngine (Engine.perform handler ref values))

/-- The subscriptions that a device keeps: those to signals that bear its name. -/
def subscriptions (device signal hostName : String) : SessionM Answer := do
  let id ← host hostName
  let table := (← get).engine.subscriptions
  if providerName? signal = some device then
    return .subscriptions (table.hosts signal) (table.listeners ⟨signal, id⟩)
  else return .subscriptions [] []

def addRule (name : String) (rule : Except ScriptError Rule) : SessionM Answer := do
  match rule with
  | .error error => return .rule (.error error)
  | .ok rule =>
    let id ← onEngine (Engine.addRule rule)
    nameRule name id
    return .rule (.ok id)

def step : Step → SessionM Answer
  | .react reaction => return .result (← onEngine (Engine.runProgram handler reaction.program))
  | .probe probe => addProbe probe
  | .get name => return .value ((← get).engine.globals.get? name)
  | .script host role text => do
    match role.parse (← scope host) text with
    | .error error => return .expression (.error error)
    | .ok expr => return .ran expr (← evaluate expr) (← execute expr)
  | .parse id host role text => do keep id (role.parse (← scope host) text)
  | .build id host tree => do keep id (tree.build (← scope host))
  | .clone id source host => withExpr source fun expr => do
    keep id ((← scope host).rebind expr)
  | .evaluate id => withExpr id fun expr => return .evaluation (← evaluate expr)
  | .execute id => withExpr id fun expr => return .execution (← execute expr)
  | .same left right => withExpr left fun a => withExpr right fun b =>
    return .truth (Expr.term a = Expr.term b)
  | .names hostName => do
    let id ← host hostName
    let e := (← get).engine
    return .names (e.signalNames id) (e.actionNames id) e.providerNames
  | .signalInfo name host shown => signalInfo name host shown
  | .actionInfo name hostName => do
    let id ← host hostName
    return .actionInfo ((← get).engine.actionDef ⟨name, id⟩)
  | .call name host values => call name host values
  | .subscriptions device signal host => subscriptions device signal host
  | .register device => do
    match (← get).engine.register device.toDevice with
    | .error error => return .providers (.error error)
    | .ok engine =>
      modify fun s => { s with engine }
      return .providers (.ok engine.providerNames)
  | .rule id host record => do addRule id (Rule.ofRecord (← scope host) record)
  | .ruleOf id hostName condition action =>
    withExpr condition fun condition => withExpr action fun
      | .action once binding args => do
        addRule id (Rule.ofParts (← host hostName) condition ⟨once, binding, args⟩)
      | _ => return .unknown action
  | .ruleInfo id => do
    match (← get).engine.foreign.rules.lookup id with
    | some rule => return .rule (.ok rule)
    | none => return .unknown id
  | .bookAdd host record => return .rule (← onBook host fun book => book.add handler record)
  | .bookImport host text policy =>
    return .report (← onBook host fun book => book.importText handler text policy)
  | .bookExport host => do
    let book ← book host
    return .text (book.exportText (← get).engine)
  | .bookTick host => do
    let book ← book host
    return .count (← onEngine (book.tick handler))
  | .bookRemoveCompleted host => return .count (← onBook host fun book => book.removeCompleted)
  | .bookClear host => do
    onBook host fun book => return ((), ← book.clear)
    return .done
  | .bookInfo host => return .book (← book host)
  | .checkText host text policy => do
    return .report (RuleText.read (some (← scope host)) policy text)

end Session

end SignalRules.Simulation
