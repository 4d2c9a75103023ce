import SignalRules.Simulation.World

/-! # Probes

A probe is a scripted listener. Each time it is called it makes the next of several lists of
reactions, and leaves a remark on how each went.
-/

namespace SignalRules.Simulation

/-- Something that a probe, or the host application itself, does to an engine. Hosts, probes and
rules go by name. -/
inductive Reaction where
  | set (name : String) (value : Value)
  /-- Give a value to a signal of a device, and announce it if it is new. -/
  | give (device : String) (signal : String) (host : String) (value : Outcome Value)
  | advance
  | schedule (signal : String) (probe : String)
  | subscribe (signal : String) (host : String) (probe : String)
  | unsubscribe (signal : String) (host : String) (probe : String)
  | activate (rule : String)
  | deactivate (rule : String)
  | check (rule : String)
  | install (action : String) (host : String)
  | uninstall (action : String) (host : String)
  | fail (error : ScriptError)

def unknownName (name : String) : ScriptError :=
  .reported .badState s!"Nothing is called '{name}'"

def refer (name host : String) : Program World Ref := do
  let (id, _) := (← Program.state).hostId host
  Program.change fun w => (w.hostId host).2
  return ⟨name, id⟩

def askAbout (table : World → List (String × ListenerId)) (name : String)
    (request : ListenerId → Request) : Program World (Except ScriptError Unit) := do
  match (table (← Program.state)).lookup name with
  | some id => Program.ask (request id)
  | none => return .error (unknownName name)

/-- Give a value to a signal of a device. The signals of a device are announced to those who could
subscribe to them: those that bear the name of the device. -/
def giveValue (device : String) (signal : Ref) (value : Outcome Value) :
    Program World (Except ScriptError Unit) := do
  if (← Program.state).values.lookup (device, signal) = some value then return .ok ()
  else
    Program.change fun w => { w with values := ((device, signal), value) :: w.values }
    if providerName? signal.name = some device then Program.ask (.announce signal)
    else return .ok ()

def Reaction.program : Reaction → Program World (Except ScriptError Unit)
  | .set name value => Program.ask (.set name value)
  | .give device signal host value => do giveValue device (← refer signal host) value
  | .advance => Program.ask .advance
  | .schedule signal probe => askAbout World.probes probe fun id => .schedule ⟨signal, id⟩
  | .subscribe signal host probe => do
    let ref ← refer signal host
    askAbout World.probes probe (.subscribe ref)
  | .unsubscribe signal host probe => do
    let ref ← refer signal host
    askAbout World.probes probe (.unsubscribe ref)
  | .activate rule => askAbout World.rules rule .activate
  | .deactivate rule => askAbout World.rules rule .deactivate
  | .check rule => askAbout World.rules rule .check
  | .install action host => do Program.ask (.install (← refer action host))
  | .uninstall action host => do Program.ask (.uninstall (← refer action host))
  | .fail error => return .error error

/-- A reaction of a probe; a tolerant one may fail without ending the call. -/
structure ProbeStep where
  reaction : Reaction
  tolerant : Bool := false

structure Probe where
  name : String
  /-- The reactions to the first calls, one list for each. -/
  calls : List (List ProbeStep) := []
  /-- The reactions to every further call. -/
  otherwise : List ProbeStep := []

namespace Probe

/-- React step by step, up to the first failure that is not tolerated. -/
def react (name : String) : List ProbeStep → Program World (Except ScriptError Unit)
  | [] => return .ok ()
  | step :: steps => do
    let result ← step.reaction.program
    .remark name result (match result, step.tolerant with
      | .error error, false => return .error error
      | _, _ => react name steps)

def listener (probe : Probe) (id : ListenerId) : Listener World :=
  .external probe.name fun _ => do
    let count := (← Program.state).calls.count id
    Program.change fun w => { w with calls := id :: w.calls }
    react probe.name (probe.calls[count]?.getD probe.otherwise)

end Probe

end SignalRules.Simulation
