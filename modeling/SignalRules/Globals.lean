import SignalRules.Definition
import SignalRules.Outcome

/-! # Global signals

Signals that rules and host applications write themselves. `Signals.<Name>` reads the number that
was last written under a local name. Values are shared by all hosts.
-/

namespace SignalRules

/-- The values written so far, by local name. -/
structure Globals where
  values : List (String × Value) := []
  deriving DecidableEq

namespace Globals

def providerName : String := "Signals"

def setAction : String := "Signals.Set"

def fullName (name : String) : String :=
  "Signals." ++ name

/-- A local name is an ASCII letter, then ASCII letters, digits and underscores. -/
def isName (name : String) : Bool :=
  match name.toList with
  | [] => false
  | c :: cs => c.isAlpha && cs.all fun c => c.isAlphanum || c == '_'

def localName (name : String) : Except ScriptError String :=
  if "Signals.".toList.isPrefixOf name.toList then
    let rest := String.ofList (name.toList.drop 8)
    if isName rest then .ok rest else .error (.lookup (.globalSignal name))
  else .error (.lookup (.globalSignal name))

theorem eq_fullName_of_localName {full name : String} (parsed : localName full = .ok name) :
    full = fullName name := by
  unfold localName at parsed
  split at parsed
  · rename_i starts
    simp only at parsed
    split at parsed
    · obtain ⟨rest, split⟩ := List.isPrefixOf_iff_prefix.1 starts
      have dropped : full.toList.drop 8 = rest := by
        rw [← split]
        rfl
      rw [dropped, Except.ok.injEq] at parsed
      rw [← parsed]
      apply String.toList_injective
      simp only [← split, fullName, String.toList_append, String.toList_ofList]
    · cases parsed
  · cases parsed

def get? (g : Globals) (name : String) : Option Value :=
  g.values.lookup name

/-- Write into a list of entries; a name that is there keeps its place. -/
def write (name : String) (value : Value) : List (String × Value) → List (String × Value)
  | [] => [(name, value)]
  | entry :: entries =>
    if entry.1 = name then (name, value) :: entries else entry :: write name value entries

def put (g : Globals) (name : String) (value : Value) : Globals :=
  ⟨write name value g.values⟩

theorem lookup_pair (name other : String) (value : Value) (entries : List (String × Value)) :
    ((name, value) :: entries).lookup other =
      if other = name then some value else entries.lookup other := by
  by_cases same : other = name
  · simp [same]
  · have differ : (other == name) = false := by simp [same]
    simp [List.lookup_cons, differ, same]

theorem lookup_write (name other : String) (value : Value) (entries : List (String × Value)) :
    (write name value entries).lookup other =
      if other = name then some value else entries.lookup other := by
  induction entries with
  | nil => exact lookup_pair name other value []
  | cons entry entries ih =>
    obtain ⟨key, old⟩ := entry
    by_cases found : key = name
    · by_cases same : other = name <;> simp [write, lookup_pair, found, same]
    · by_cases first : other = key
      · simp [write, found, first]
      · simp [write, lookup_pair, found, first, ih]

/-- A write is seen under its own name and nowhere else. -/
theorem get?_put (g : Globals) (name other : String) (value : Value) :
    (g.put name value).get? other = if other = name then some value else g.get? other :=
  lookup_write name other value g.values

def names (g : Globals) : List String :=
  g.values.map Prod.fst

/-- Reading a signal that was never written is put off. -/
def outcome (g : Globals) (name : String) : Outcome Value :=
  match g.get? name with
  | some value => .ready value
  | none => .interrupted s!"Global signal '{name}' has not been set"

def definition (name : String) : Except ScriptError SignalDef :=
  (localName name).map fun rest => { name, display := rest, result := .number }

/-- A constant argument must be a local name; any other argument is taken on trust. -/
def checkNameArgument : Term → Except ScriptError Unit
  | .constant (.string s) => if isName s then .ok () else .error (.lookup (.globalName s))
  | _ => .ok ()

def setDefinition : ActionDef where
  name := setAction
  display := "Set global signal"
  arguments := [{ type := .string, argumentCheck := some checkNameArgument }, .number]

end Globals

end SignalRules
