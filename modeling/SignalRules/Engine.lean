import SignalRules.Config
import SignalRules.Device
import SignalRules.Diagnostics
import SignalRules.Dispatcher
import SignalRules.Globals
import SignalRules.Rule
import SignalRules.Subscriptions

/-! # Engines

An `Engine σ` is the whole state of a running rule engine: its providers, its listeners, the
subscriptions between them, and the dispatcher. Two providers are always there, the global signals
and the diagnostics; all others are devices, which share a foreign state of type `σ`.

Everything that providers and listeners get to see is entered in a journal, which only grows.
-/

namespace SignalRules

/-- Something to be told when a signal changes. -/
inductive Listener (σ : Type) where
  | rule (rule : Rule)
  /-- A foreign listener; the name is for people to tell listeners apart. -/
  | external (name : String) (respond : String → Program σ (Except ScriptError Unit))

inductive Event where
  | read (signal : Ref) (outcome : Outcome Value)
  | called (action : Ref) (values : List Value)
  /-- The action called last that had not returned did so. -/
  | returned (action : Ref) (outcome : Outcome Unit)
  | fired (rule : ListenerId) (outcome : Outcome Expr.Completion)
  /-- A provider was asked to install an action, for a rule or for the host application. -/
  | installed (owner : Option ListenerId) (action : Ref) (result : Except ScriptError Unit)
  | uninstalled (owner : Option ListenerId) (action : Ref)
  | logged (host : HostId) (message : String)
  /-- A callback was taken up; the pending queue with it. -/
  | entered (callback : Callback) (pending : List Callback)
  /-- A callback ended; the pending queue without it. -/
  | left (callback : Callback) (result : Except ScriptError Unit) (pending : List Callback)
  | refused (callback : Callback) (error : DispatchError)
  /-- A foreign listener or device left a remark. -/
  | remarked (label : String) (result : Except ScriptError Unit)

structure Engine (σ : Type) where
  config : Config
  dispatcher : Dispatcher
  globals : Globals := {}
  ticker : Ticker := {}
  subscriptions : Subscriptions := {}
  devices : List (Device σ) := []
  /-- The listener numbered `n + 1` stands at index `n`. -/
  listeners : List (Listener σ) := []
  /-- Oldest entry first. -/
  journal : List Event := []
  foreign : σ

inductive Provider (σ : Type) where
  | globals
  | diagnostics
  | device (device : Device σ)

/-- The part of a name before its first dot. -/
def providerName? (name : String) : Option String :=
  if '.' ∈ name.toList then some (String.ofList (name.toList.takeWhile (· ≠ '.'))) else none

def sortTexts (texts : List String) : List String :=
  texts.mergeSort (· ≤ ·)

namespace Engine

variable {σ : Type}

def create (config : Config) (foreign : σ) : Engine σ :=
  { config, dispatcher := { limit := config.callbackQueueLimit }, foreign }

/-! ## Providers -/

def providerNames (e : Engine σ) : List String :=
  sortTexts (Globals.providerName :: Diagnostics.providerName :: e.devices.map Device.name)

structure DuplicateProvider where
  name : String
  deriving DecidableEq

def DuplicateProvider.message (error : DuplicateProvider) : String :=
  s!"Scripting provider '{error.name}' is already registered"

def register (e : Engine σ) (device : Device σ) : Except DuplicateProvider (Engine σ) :=
  if device.name ∈ e.providerNames then .error ⟨device.name⟩
  else .ok { e with devices := e.devices ++ [device] }

def provider (e : Engine σ) (name : String) : Except ScriptError (Provider σ) :=
  match providerName? name with
  | none => .error (.lookup (.noProvider name))
  | some key =>
    if key = Globals.providerName then .ok .globals
    else if key = Diagnostics.providerName then .ok .diagnostics
    else
      match e.devices.find? fun device => device.name = key with
      | some device => .ok (.device device)
      | none => .error (.lookup (.unknownProvider key name))

/-! ## Lookups -/

def signalDef (e : Engine σ) (signal : Ref) : Except ScriptError SignalDef :=
  match e.provider signal.name with
  | .error error => .error error
  | .ok .globals => Globals.definition signal.name
  | .ok .diagnostics => Diagnostics.definition signal.name
  | .ok (.device device) => device.signal signal e.foreign

/-- Whether a signal can be read. -/
def checkSource (e : Engine σ) (signal : Ref) : Except ScriptError Unit :=
  match e.provider signal.name with
  | .error error => .error error
  | .ok .globals => (Globals.localName signal.name).map fun _ => ()
  | .ok .diagnostics => Diagnostics.checkSignal signal.name
  | .ok (.device device) => device.source signal e.foreign

def checkSubscribe (e : Engine σ) (signal : Ref) : Except ScriptError Unit :=
  match e.provider signal.name with
  | .error error => .error error
  | .ok .globals => (Globals.localName signal.name).map fun _ => ()
  | .ok .diagnostics => Diagnostics.checkSignal signal.name
  | .ok (.device device) => device.subscribe signal e.foreign

def actionDef (e : Engine σ) (action : Ref) : Except ScriptError ActionDef :=
  match e.provider action.name with
  | .error error => .error error
  | .ok .globals =>
    if action.name = Globals.setAction then .ok Globals.setDefinition
    else .error (.lookup (.unknownAction action.name))
  | .ok .diagnostics =>
    (Diagnostics.checkAction action.name).map fun _ => Diagnostics.logDefinition
  | .ok (.device device) => device.action action e.foreign

def checkExecutor (e : Engine σ) (action : Ref) : Except ScriptError Unit :=
  match e.provider action.name with
  | .error error => .error error
  | .ok .globals =>
    if action.name = Globals.setAction then .ok ()
    else .error (.lookup (.unknownAction action.name))
  | .ok .diagnostics => Diagnostics.checkAction action.name
  | .ok (.device device) => device.executor action e.foreign

/-- What the scripts of a host may say. -/
def scope (e : Engine σ) (host : HostId) : Scope where
  host
  maxScriptLength := e.config.maxScriptLength
  maxNestingDepth := e.config.maxNestingDepth
  signal name := e.signalDef ⟨name, host⟩
  source name := e.checkSource ⟨name, host⟩
  action name := e.actionDef ⟨name, host⟩
  executor name := e.checkExecutor ⟨name, host⟩

/-- Every signal that a provider offers on a host, in order. -/
def signalNames (e : Engine σ) (host : HostId) : List String :=
  sortTexts (e.globals.names.map Globals.fullName ++ Diagnostics.tickerSignal
    :: e.devices.flatMap fun device => device.signalNames host e.foreign)

def actionNames (e : Engine σ) (host : HostId) : List String :=
  sortTexts (Globals.setAction :: Diagnostics.logAction
    :: e.devices.flatMap fun device => device.actionNames host e.foreign)

/-! ## Listeners -/

/-- Number a new listener. -/
def addListener (e : Engine σ) (listener : Listener σ) : ListenerId × Engine σ :=
  (⟨e.listeners.length + 1⟩, { e with listeners := e.listeners ++ [listener] })

def listener? (e : Engine σ) (id : ListenerId) : Option (Listener σ) :=
  if id.number = 0 then none else e.listeners[id.number - 1]?

def rule? (e : Engine σ) (id : ListenerId) : Option Rule :=
  match e.listener? id with
  | some (.rule rule) => some rule
  | _ => none

def modifyRule (e : Engine σ) (id : ListenerId) (f : Rule → Rule) : Engine σ :=
  match e.rule? id with
  | some rule => { e with listeners := e.listeners.set (id.number - 1) (.rule (f rule)) }
  | none => e

/-! ## Reading -/

def signalOutcome (e : Engine σ) (signal : Ref) : Outcome Value × σ :=
  match e.provider signal.name with
  | .error error => (.failed error, e.foreign)
  | .ok .globals =>
    match Globals.localName signal.name with
    | .ok name => (e.globals.outcome name, e.foreign)
    | .error error => (.failed error, e.foreign)
  | .ok .diagnostics =>
    match Diagnostics.checkSignal signal.name with
    | .ok _ => (.ready e.ticker.value, e.foreign)
    | .error error => (.failed error, e.foreign)
  | .ok (.device device) => device.read signal e.foreign

/-- Enter something in the journal. -/
def note (e : Engine σ) (event : Event) : Engine σ :=
  { e with journal := e.journal ++ [event] }

end Engine

end SignalRules
