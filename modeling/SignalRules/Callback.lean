/-! # Callbacks

A callback tells one listener that one signal has changed.
-/

namespace SignalRules

/-- The identity of a listener; an engine numbers its listeners from one. -/
structure ListenerId where
  number : Nat
  deriving DecidableEq

def ListenerId.text (id : ListenerId) : String :=
  s!"listener#{id.number}"

/-- A signal, by its full name, and the listener to be told. -/
structure Callback where
  signal : String
  listener : ListenerId
  deriving DecidableEq

def Callback.text (callback : Callback) : String :=
  s!"{callback.signal}@{callback.listener.text}"

end SignalRules
