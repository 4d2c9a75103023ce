import SignalRules.Error

/-! # Outcomes

The three endings of an evaluation or of an action.
-/

namespace SignalRules

/-- What came of an evaluation. -/
inductive Outcome (α : Type) where
  | ready (result : α)
  /-- It cannot be completed now and can be tried again; nothing has happened yet. -/
  | interrupted (reason : String)
  | failed (error : ScriptError)
  deriving DecidableEq

namespace Outcome

variable {α β : Type}

def ofExcept : Except ScriptError α → Outcome α
  | .ok a => .ready a
  | .error e => .failed e

def andThen (o : Outcome α) (f : α → Outcome β) : Outcome β :=
  match o with
  | .ready a => f a
  | .interrupted reason => .interrupted reason
  | .failed e => .failed e

def map (f : α → β) (o : Outcome α) : Outcome β :=
  o.andThen fun a => .ready (f a)

def isReady : Outcome α → Bool
  | .ready _ => true
  | _ => false

end Outcome

end SignalRules
