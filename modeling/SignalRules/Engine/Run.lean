import SignalRules.Engine

/-! # Running an engine

`Engine.serve` says how an engine carries out one request, given a way to carry out the requests
that come up in the course of it. `Engine.handle` ties the knot: it counts how deeply requests may
nest, and a run that would nest deeper has no result. Requests of a host application nest once for
every callback in the chain and once for every request of a foreign listener or device.
-/

namespace SignalRules

/-- A computation on an engine; none if requests nest too deeply. -/
abbrev Run (σ α : Type) := StateT (Engine σ) Option α

/-- A way to carry out requests. -/
abbrev Handler (σ : Type) := Request → Run σ (Except ScriptError Unit)

namespace Engine

variable {σ : Type}

def record (event : Event) : Run σ Unit :=
  modify fun e => e.note event

def read (signal : Ref) : Run σ (Outcome Value) := do
  let (outcome, foreign) := (← get).signalOutcome signal
  modify fun e => { e with foreign }
  record (.read signal outcome)
  return outcome

/-- Do something for each element in turn, up to the first error. -/
def forEach {α : Type} (f : α → Run σ (Except ScriptError Unit)) :
    List α → Run σ (Except ScriptError Unit)
  | [] => return .ok ()
  | a :: as => do
    match ← f a with
    | .ok _ => forEach f as
    | .error error => return .error error

/-! ## Programs -/

/-- Run a program, its requests being carried out by `handler`. -/
def runProgram {α : Type} (handler : Handler σ) : Program σ α → Run σ α
  | .finish a => return a
  | .request r next => do
    let result ← handler r
    runProgram handler (next result)
  | .inspect next => do
    let e ← get
    runProgram handler (next e.foreign e.dispatcher.pending)
  | .update f next => do
    modify fun e => { e with foreign := f e.foreign }
    runProgram handler next
  | .remark label result next => do
    record (.remarked label result)
    runProgram handler next

/-! ## Notification -/

/-- Tell the listeners of a signal on a host, one after the other, up to the first that fails. Who
is told is settled beforehand. -/
def announce (handler : Handler σ) (signal : Ref) : Run σ (Except ScriptError Unit) := do
  let listeners := (← get).subscriptions.listeners signal
  forEach (fun listener => handler (.schedule ⟨signal.name, listener⟩)) listeners

def announceEverywhere (handler : Handler σ) (signal : String) :
    Run σ (Except ScriptError Unit) := do
  let hosts := (← get).subscriptions.hosts signal
  forEach (fun host => announce handler ⟨signal, host⟩) hosts

/-- Write a global signal, and tell its listeners if the value is new. -/
def setGlobal (handler : Handler σ) (name : String) (value : Value) :
    Run σ (Except ScriptError Unit) := do
  let previous := (← get).globals.get? name
  modify fun e => { e with globals := e.globals.put name value }
  if previous = some value then return .ok ()
  else announceEverywhere handler (Globals.fullName name)

def advanceTicker (handler : Handler σ) : Run σ (Except ScriptError Unit) := do
  modify fun e => { e with ticker := e.ticker.advance }
  announceEverywhere handler Diagnostics.tickerSignal

/-! ## Actions -/

/-- What an action of the engine's own providers, or of a device, does with argument values. -/
def act (handler : Handler σ) (action : Ref) (values : List Value) : Run σ (Outcome Unit) := do
  match (← get).provider action.name with
  | .error error => return .failed error
  | .ok .globals =>
    if action.name = Globals.setAction then
      match values with
      | [name, value] =>
        match name.asString with
        | .ok name => return .ofExcept (← setGlobal handler name value)
        | .error error => return .failed error
      | _ => return .failed (.evaluation .setArguments)
    else return .failed (.lookup (.unknownAction action.name))
  | .ok .diagnostics =>
    if action.name = Diagnostics.logAction then
      match values with
      | message :: _ =>
        match message.asString with
        | .ok message =>
          record (.logged action.host message)
          return .ready ()
        | .error error => return .failed error
      | [] => return .failed (.evaluation .logArguments)
    else return .failed (.lookup (.unknownAction action.name))
  | .ok (.device device) => runProgram handler (device.perform action values)

def perform (handler : Handler σ) (action : Ref) (values : List Value) : Run σ (Outcome Unit) := do
  record (.called action values)
  let outcome ← act handler action values
  record (.returned action outcome)
  return outcome

def performCall (handler : Handler σ) (call : Call) : Run σ (Outcome Expr.Completion) :=
  Expr.executeCall read (perform handler) call

/-- Install an action for a rule or for the host application. The engine's own providers need
nothing installed. -/
def install (owner : Option ListenerId) (action : Ref) : Run σ (Except ScriptError Unit) := do
  match (← get).provider action.name with
  | .error error => return .error error
  | .ok (.device device) =>
    let (result, foreign) := device.install action (← get).foreign
    modify fun e => { e with foreign }
    record (.installed owner action result)
    return result
  | .ok _ =>
    record (.installed owner action (.ok ()))
    return .ok ()

/-- Undo an installation; a name without a provider is passed over. -/
def uninstall (owner : Option ListenerId) (action : Ref) : Run σ Unit := do
  match (← get).provider action.name with
  | .error _ => return ()
  | .ok (.device device) =>
    modify fun e => { e with foreign := device.uninstall action e.foreign }
    record (.uninstalled owner action)
  | .ok _ => record (.uninstalled owner action)

/-! ## Subscriptions -/

def subscribe (signal : Ref) (listener : ListenerId) : Run σ (Except ScriptError Unit) := do
  match (← get).checkSubscribe signal with
  | .error error => return .error error
  | .ok _ =>
    modify fun e => { e with subscriptions := e.subscriptions.add signal listener }
    return .ok ()

def unsubscribe (signal : Ref) (listener : ListenerId) : Run σ Unit :=
  modify fun e => { e with subscriptions := e.subscriptions.remove signal listener }

/-! ## Rules -/

def changeRule (id : ListenerId) (f : Rule → Rule) : Run σ Unit :=
  modify fun e => e.modifyRule id f

/-- Break a rule by an error, and pass the error on. -/
def failRule (id : ListenerId) (error : ScriptError) : Run σ (Except ScriptError Unit) := do
  let error := error.intoRuntime
  changeRule id fun rule => { rule with state := .failed, error := some error }
  return .error error

/-- Try the action of a rule whose condition has turned true. If the action cannot be completed
now, the next check tries again. An error breaks the rule, unless a listener further down the chain
has failed: then the error is that listener's. -/
def fire (handler : Handler σ) (id : ListenerId) (call : Call) :
    Run σ (Except ScriptError Unit) := do
  let before := (← get).dispatcher.failures
  let outcome ← performCall handler call
  record (.fired id outcome)
  match outcome with
  | .ready .done => return .ok ()
  | .ready .doneOnce =>
    changeRule id fun rule => { rule with state := .completed }
    return .ok ()
  | .interrupted _ =>
    changeRule id fun rule => { rule with held := false }
    return .ok ()
  | .failed error =>
    if (← get).dispatcher.failures ≠ before then return .error error
    else failRule id error

/-- Evaluate the condition of an active rule, and fire if it has turned true. -/
def check (handler : Handler σ) (id : ListenerId) : Run σ (Except ScriptError Unit) := do
  match (← get).rule? id with
  | none => return .ok ()
  | some rule =>
    if rule.state ≠ .active then return .ok ()
    else
      match ← rule.condition.evaluate read with
      | .interrupted _ => return .ok ()
      | .failed error => failRule id error
      | .ready value =>
        match value.isTrue with
        | .error error => failRule id error
        | .ok holds =>
          changeRule id fun rule => { rule with held := holds }
          if holds && !rule.held then fire handler id rule.action
          else return .ok ()

def detach (id : ListenerId) (rule : Rule) : Run σ Unit := do
  rule.signals.forM fun signal => unsubscribe signal id
  uninstall (some id) rule.actionRef

/-- Activate an inactive rule: install its action, subscribe it to every signal of its condition,
and check it. If a subscription is refused, everything is taken back. -/
def activate (handler : Handler σ) (id : ListenerId) : Run σ (Except ScriptError Unit) := do
  match (← get).rule? id with
  | none => return .ok ()
  | some rule =>
    if rule.state ≠ .inactive then return .ok ()
    else
      match ← install (some id) rule.actionRef with
      | .error error => return .error error
      | .ok _ =>
        match ← forEach (fun signal => subscribe signal id) rule.signals with
        | .error error =>
          detach id rule
          return .error error
        | .ok _ =>
          changeRule id fun rule => { rule with state := .active, held := false }
          check handler id

/-- Take a rule back. A broken or completed rule stays so. -/
def deactivate (id : ListenerId) : Run σ Unit := do
  match (← get).rule? id with
  | none => return ()
  | some rule =>
    detach id rule
    changeRule id fun rule =>
      if rule.state = .active then { rule with state := .inactive } else rule

/-! ## Callbacks -/

def respond (handler : Handler σ) (callback : Callback) : Run σ (Except ScriptError Unit) := do
  match (← get).listener? callback.listener with
  | none => return .ok ()
  | some (.rule _) => check handler callback.listener
  | some (.external _ respond) => runProgram handler (respond callback.signal)

/-- Carry out a callback, if the dispatcher takes it up. -/
def schedule (handler : Handler σ) (callback : Callback) : Run σ (Except ScriptError Unit) := do
  let (dispatcher, verdict) := (← get).dispatcher.enter callback
  modify fun e => { e with dispatcher }
  match verdict with
  | .error error =>
    record (.refused callback error)
    return .error (.dispatch error)
  | .ok _ =>
    record (.entered callback dispatcher.pending)
    let result ← respond handler callback
    let dispatcher := (← get).dispatcher.leave callback result
    modify fun e => { e with dispatcher }
    record (.left callback result dispatcher.pending)
    return result

/-! ## Requests -/

/-- Carry out one request; those that come up in the course of it go to `handler`. -/
def serve (handler : Handler σ) : Handler σ
  | .schedule callback => schedule handler callback
  | .announce signal => announce handler signal
  | .set name value => do
    if Globals.isName name then
      match value.asNumber with
      | .ok _ => setGlobal handler name value
      | .error error => return .error error
    else return .error (.evaluation (.globalName name))
  | .advance => advanceTicker handler
  | .subscribe signal listener => subscribe signal listener
  | .unsubscribe signal listener => do
    unsubscribe signal listener
    return .ok ()
  | .activate rule => activate handler rule
  | .deactivate rule => do
    deactivate rule
    return .ok ()
  | .check rule => check handler rule
  | .install action => install none action
  | .uninstall action => do
    uninstall none action
    return .ok ()

/-- Carry out requests nested at most this deeply. -/
def handle : Nat → Handler σ
  | 0, _ => failure
  | depth + 1, request => serve (handle depth) request

end Engine

end SignalRules
