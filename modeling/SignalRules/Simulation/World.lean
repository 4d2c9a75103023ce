import SignalRules.Engine

/-! # Simulated worlds

A world of scripted devices in which an engine can be exercised. A device script fixes what the
device offers, what its signals read, and how its lookups and actions end; signals can be given new
values while the engine runs.
-/

namespace SignalRules.Simulation

/-! ## Scripts of values -/

/-- How the body of a shown value is written. -/
inductive NumberStyle where
  | whole
  | decimal
  /-- The value as scripts write it. -/
  | literal
  deriving DecidableEq

/-- How a value is shown: a body between two texts. -/
structure FormatScript where
  before : String
  after : String
  style : NumberStyle

/-- The shown form; where a number is needed, a text counts as zero. -/
def FormatScript.text (f : FormatScript) (value : Value) : String :=
  let number : Fixed :=
    match value with
    | .number n => n
    | .string _ => .zero
  let body : String :=
    match f.style with
    | .whole => toString number.toInt
    | .decimal => number.toDecimal
    | .literal => value.toLiteral
  f.before ++ body ++ f.after

structure ValueScript where
  type : ValueType
  format : Option FormatScript := none
  range : Option (Fixed × Fixed) := none
  options : Option (List ValueOption) := none
  replacements : Option (List (String × String)) := none
  /-- As an argument it must be written as a constant. -/
  constantOnly : Bool := false

def checkConstant : Term → Except ScriptError Unit
  | .constant _ => .ok ()
  | term => .error (.reported .parsing ("must be a constant: " ++ term.toScript))

def ValueScript.toDef (s : ValueScript) : ValueDef where
  type := s.type
  formatter := s.format.map FormatScript.text
  validator := s.range.map fun bounds => ValueDef.inRange bounds.1 bounds.2
  argumentCheck := if s.constantOnly then some checkConstant else none
  options := s.options
  replacements := s.replacements

/-! ## Scripts of devices -/

structure SignalScript where
  name : String
  display : String
  result : ValueDef
  /-- What it reads until it is given another value. -/
  value : Outcome Value
  /-- The hosts it is available on, if not all. -/
  hosts : Option (List String) := none
  sourceError : Option ScriptError := none
  subscribeError : Option ScriptError := none

structure ActionScript where
  name : String
  display : String
  arguments : List ValueDef
  result : Outcome Unit
  executorError : Option ScriptError := none
  installError : Option ScriptError := none

structure DeviceScript where
  name : String
  signals : List SignalScript
  actions : List ActionScript

/-! ## Worlds -/

structure World where
  /-- The names of the hosts; the host at index `n` has the identifier `n`. -/
  hosts : List String := []
  /-- The latest probe and rule of each name come first. -/
  probes : List (String × ListenerId) := []
  rules : List (String × ListenerId) := []
  /-- A probe is listed once for every call it has had. -/
  calls : List ListenerId := []
  /-- The values given to signals of devices, the latest first. -/
  values : List ((String × Ref) × Outcome Value) := []

namespace World

def hostName (w : World) (host : HostId) : String :=
  w.hosts[host.bits.toNat]?.getD ""

/-- The identifier of a host; a name not met before gets the next one. -/
def hostId (w : World) (name : String) : HostId × World :=
  match w.hosts.idxOf? name with
  | some n => (⟨BitVec.ofNat 128 n⟩, w)
  | none => (⟨BitVec.ofNat 128 w.hosts.length⟩, { w with hosts := w.hosts ++ [name] })

end World

/-! ## Devices -/

namespace DeviceScript

def signal? (d : DeviceScript) (ref : Ref) (w : World) : Except ScriptError SignalScript :=
  match d.signals.find? fun s => s.name = ref.name with
  | none => .error (.lookup (.unknownSignal ref.name))
  | some s =>
    if s.hosts.all fun hosts => hosts.contains (w.hostName ref.host) then .ok s
    else .error (.reported .badState s!"{ref.name} is not available here")

def action? (d : DeviceScript) (ref : Ref) : Except ScriptError ActionScript :=
  match d.actions.find? fun a => a.name = ref.name with
  | none => .error (.lookup (.unknownAction ref.name))
  | some a => .ok a

def failIf : Option ScriptError → Except ScriptError Unit
  | some error => .error error
  | none => .ok ()

def read (d : DeviceScript) (ref : Ref) (w : World) : Outcome Value :=
  match w.values.lookup (d.name, ref) with
  | some outcome => outcome
  | none =>
    match d.signal? ref w with
    | .ok s => s.value
    | .error error => .failed error

/-- The device that follows the script. -/
def toDevice (d : DeviceScript) : Device World where
  name := d.name
  signalNames host w := (d.signals.filter fun s => (d.signal? ⟨s.name, host⟩ w).isOk).map
    SignalScript.name
  signal ref w := (d.signal? ref w).map fun s => ⟨s.name, s.display, s.result⟩
  source ref w := do failIf (← d.signal? ref w).sourceError
  subscribe ref w := do failIf (← d.signal? ref w).subscribeError
  read ref w := (d.read ref w, w)
  actionNames _ _ := d.actions.map ActionScript.name
  action ref _ := (d.action? ref).map fun a => ⟨a.name, a.display, a.arguments⟩
  executor ref _ := do failIf (← d.action? ref).executorError
  perform ref _ :=
    match d.action? ref with
    | .ok a => .finish a.result
    | .error error => .finish (.failed error)
  install ref w := (do failIf (← d.action? ref).installError, w)
  uninstall _ w := w

end DeviceScript

end SignalRules.Simulation
