import SignalRules.Callback
import SignalRules.Outcome
import SignalRules.Tree

/-! # Requests and programs

`Request` lists what an engine can be asked to do, by its host application as well as by listeners
and devices in the middle of a chain. A `Program` is what a foreign listener or device does when it
is called: it makes requests one after the other, sees the answer to each, and may do as it likes
with them.
-/

namespace SignalRules

/-- Something an engine can be asked to do. -/
inductive Request where
  /-- Carry out a callback, whether the listener is subscribed or not. -/
  | schedule (callback : Callback)
  /-- Tell the listeners of a signal on a host that it has changed. -/
  | announce (signal : Ref)
  /-- Write a global signal, by its local name. -/
  | set (name : String) (value : Value)
  | advance
  | subscribe (signal : Ref) (listener : ListenerId)
  | unsubscribe (signal : Ref) (listener : ListenerId)
  | activate (rule : ListenerId)
  | deactivate (rule : ListenerId)
  | check (rule : ListenerId)
  | install (action : Ref)
  | uninstall (action : Ref)
  deriving DecidableEq

/-- A finite interaction with an engine whose foreign part has the state `σ`. -/
inductive Program (σ α : Type) where
  | finish (result : α)
  | request (r : Request) (next : Except ScriptError Unit → Program σ α)
  | inspect (next : σ → List Callback → Program σ α)
  | update (f : σ → σ) (next : Program σ α)
  /-- Leave a remark in the journal of the engine. -/
  | remark (label : String) (result : Except ScriptError Unit) (next : Program σ α)

namespace Program

variable {σ α β : Type}

def bind (p : Program σ α) (f : α → Program σ β) : Program σ β :=
  match p with
  | .finish a => f a
  | .request r next => .request r fun result => (next result).bind f
  | .inspect next => .inspect fun s pending => (next s pending).bind f
  | .update g next => .update g (next.bind f)
  | .remark label result next => .remark label result (next.bind f)

instance : Monad (Program σ) where
  pure := .finish
  bind := bind

theorem bind_finish (p : Program σ α) : p.bind .finish = p := by
  induction p with
  | finish a => rfl
  | request r next ih => exact congrArg (Program.request r) (funext ih)
  | inspect next ih =>
    exact congrArg Program.inspect (funext fun s => funext fun pending => ih s pending)
  | update f next ih => exact congrArg (Program.update f) ih
  | remark label result next ih => exact congrArg (Program.remark label result) ih

theorem bind_bind {γ : Type} (p : Program σ α) (f : α → Program σ β) (g : β → Program σ γ) :
    (p.bind f).bind g = p.bind fun a => (f a).bind g := by
  induction p with
  | finish a => rfl
  | request r next ih => exact congrArg (Program.request r) (funext ih)
  | inspect next ih =>
    exact congrArg Program.inspect (funext fun s => funext fun pending => ih s pending)
  | update h next ih => exact congrArg (Program.update h) ih
  | remark label result next ih => exact congrArg (Program.remark label result) ih

instance : LawfulMonad (Program σ) :=
  LawfulMonad.mk' _ bind_finish (fun _ _ => rfl) bind_bind

def ask (r : Request) : Program σ (Except ScriptError Unit) :=
  .request r .finish

def state : Program σ σ :=
  .inspect fun s _ => .finish s

def change (f : σ → σ) : Program σ Unit :=
  .update f (.finish ())

/-- The program makes no requests, whatever it sees. -/
inductive Quiet : Program σ α → Prop where
  | finish (a : α) : Quiet (.finish a)
  | inspect {next : σ → List Callback → Program σ α} :
    (∀ s pending, Quiet (next s pending)) → Quiet (.inspect next)
  | update {f : σ → σ} {next : Program σ α} : Quiet next → Quiet (.update f next)
  | remark {label : String} {result : Except ScriptError Unit} {next : Program σ α} :
    Quiet next → Quiet (.remark label result next)

end Program

end SignalRules
