import SignalRules.Expr
import SignalRules.Program

/-! # Devices

A device is a foreign provider: a named family of signals and actions besides the two families that
every engine has. What it offers may depend on its state and on the host.
-/

namespace SignalRules

/-- A foreign provider with a state of type `σ`. All names are full names. -/
structure Device (σ : Type) where
  /-- What full names start with, up to their first dot. -/
  name : String
  signalNames : HostId → σ → List String
  signal : Ref → σ → Except ScriptError SignalDef
  /-- Whether a signal can be read at present. -/
  source : Ref → σ → Except ScriptError Unit
  subscribe : Ref → σ → Except ScriptError Unit
  read : Ref → σ → Outcome Value × σ
  actionNames : HostId → σ → List String
  action : Ref → σ → Except ScriptError ActionDef
  /-- Whether an action can be performed at present. -/
  executor : Ref → σ → Except ScriptError Unit
  /-- Perform an action. In the course of it the device may announce changes of its signals. -/
  perform : Ref → List Value → Program σ (Outcome Unit)
  /-- Attach to a host what an action needs. -/
  install : Ref → σ → Except ScriptError Unit × σ
  uninstall : Ref → σ → σ

end SignalRules
