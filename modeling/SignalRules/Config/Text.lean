import SignalRules.Config
import SignalRules.Toml.Reader

/-! # Configuration texts

A configuration is written as a TOML document. Keys that are left out keep their defaults, and
unknown keys are passed over.
-/

namespace SignalRules

namespace Config

/-- A limit: a number that is not negative. -/
def limit? (default : Nat) : Option Toml → Option Nat
  | none => some default
  | some (.integer n) => if 0 ≤ n then some n.toNat else none
  | some _ => none

def isHollow : Toml → Bool
  | .array items => items.isEmpty
  | .inline _ entries => entries.isEmpty
  | .table _ entries => entries.isEmpty
  | .tables items => items.isEmpty
  | _ => false

/-- A policy: its name as a string, or as the only key of a table, with nothing under it. -/
def policy? (default : ImportPolicy) : Option Toml → Option ImportPolicy
  | none => some default
  | some (.string name) => ImportPolicy.ofName? name
  | some (.inline _ [(name, value)]) => if isHollow value then ImportPolicy.ofName? name else none
  | some (.table _ [(name, value)]) => if isHollow value then ImportPolicy.ofName? name else none
  | some _ => none

def ofToml? (root : Toml.Entries) : Option Config := do
  let default : Config := {}
  return {
    maxScriptLength := ← limit? default.maxScriptLength (root.lookup "max_script_length")
    maxNestingDepth := ← limit? default.maxNestingDepth (root.lookup "max_nesting_depth")
    callbackQueueLimit := ← limit? default.callbackQueueLimit (root.lookup "callback_queue_limit")
    importPolicy := ← policy? default.importPolicy (root.lookup "import_policy") }

/-- The configuration that a text writes, with its limits checked. -/
def ofText (text : String) : Except EngineError Config :=
  match (Toml.read? text).bind ofToml? with
  | none => .error .toml
  | some config =>
    match config.validate with
    | .ok _ => .ok config
    | .error cause => .error (.config cause)

def ofFile (content : Option String) : Except EngineError Config :=
  match content with
  | none => .error .file
  | some text => ofText text

end Config

end SignalRules
