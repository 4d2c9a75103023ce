import SignalRules.Definition

/-! # Diagnostics

Help for the authors of rules: a ticker that hosts advance, and an action that writes to a log.
-/

namespace SignalRules

/-- How often the ticker was advanced; the count stops at the largest 32-bit number. -/
structure Ticker where
  count : Nat := 0
  count_le : count ≤ 2147483647 := by decide

namespace Ticker

/-- The value of the ticker signal: the count, or the largest number if that is smaller. -/
def value (t : Ticker) : Value :=
  .number (.ofInt t.count)

def advance (t : Ticker) : Ticker :=
  if h : t.count < 2147483647 then ⟨t.count + 1, h⟩ else t

end Ticker

namespace Diagnostics

def providerName : String := "Debug"

def tickerSignal : String := "Debug.Ticker"

def logAction : String := "Debug.Log"

/-- A tick is shown as a whole number. -/
def tickText (value : Value) : String :=
  match value with
  | .number n => s!"tick {n.toInt}"
  | .string _ => "tick 0"

def checkSignal (name : String) : Except ScriptError Unit :=
  if name = tickerSignal then .ok () else .error (.lookup (.unknownSignal name))

def checkAction (name : String) : Except ScriptError Unit :=
  if name = logAction then .ok () else .error (.lookup (.unknownAction name))

def definition (name : String) : Except ScriptError SignalDef :=
  (checkSignal name).map fun _ =>
    { name := tickerSignal, display := "Debug ticker",
      result := { type := .number, formatter := some tickText } }

def logDefinition : ActionDef where
  name := logAction
  display := "Log"
  arguments := [.string]

end Diagnostics

end SignalRules
