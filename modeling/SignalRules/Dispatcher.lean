import SignalRules.Callback
import SignalRules.Error

/-! # The dispatcher

A dispatcher keeps the callbacks that are being carried out. A listener may change signals while
it runs, so callbacks nest, and the pending queue holds the chain from the oldest to the newest.
A callback that is pending already would feed the chain back into itself and is refused, and so is
one for which the queue has no room.
-/

namespace SignalRules

structure Dispatcher where
  limit : Nat
  /-- Oldest first. -/
  pending : List Callback := []
  /-- How many listeners have failed, those on a cycle excepted. A rule compares this number before
  and after its action to tell a failure further down the chain from its own. -/
  failures : Nat := 0
  /-- A cycle was found, and the chain it belongs to has not ended since. -/
  circular : Bool := false

namespace Dispatcher

/-- With nothing pending a new chain begins, and no cycle has been found in it. -/
def refresh (d : Dispatcher) : Dispatcher :=
  if d.pending.isEmpty then { d with circular := false } else d

@[simp] theorem pending_refresh (d : Dispatcher) : d.refresh.pending = d.pending := by
  unfold refresh
  split <;> rfl

@[simp] theorem limit_refresh (d : Dispatcher) : d.refresh.limit = d.limit := by
  unfold refresh
  split <;> rfl

@[simp] theorem failures_refresh (d : Dispatcher) : d.refresh.failures = d.failures := by
  unfold refresh
  split <;> rfl

/-- Take up a callback, or refuse it and leave the queue as it is. -/
def enter (d : Dispatcher) (callback : Callback) : Dispatcher × Except DispatchError Unit :=
  if callback ∈ d.pending then
    ({ d.refresh with circular := true },
      .error (.circular callback.signal (d.pending.map Callback.signal ++ [callback.signal])))
  else if d.limit ≤ d.pending.length then (d.refresh, .error (.full d.limit callback.signal))
  else ({ d.refresh with pending := d.pending ++ [callback] }, .ok ())

@[simp] theorem limit_enter (d : Dispatcher) (callback : Callback) :
    (d.enter callback).1.limit = d.limit := by
  unfold enter
  split
  · exact limit_refresh d
  · split <;> exact limit_refresh d

@[simp] theorem failures_enter (d : Dispatcher) (callback : Callback) :
    (d.enter callback).1.failures = d.failures := by
  unfold enter
  split
  · exact failures_refresh d
  · split <;> exact failures_refresh d

/-- The list without the last occurrence of a callback. -/
def eraseLast (callback : Callback) (pending : List Callback) : List Callback :=
  (pending.reverse.erase callback).reverse

theorem eraseLast_append_self (callback : Callback) (pending : List Callback) :
    eraseLast callback (pending ++ [callback]) = pending := by
  simp [eraseLast]

/-- A callback is taken up unless it is pending or the queue is full. -/
theorem enter_eq_ok_iff (d : Dispatcher) (callback : Callback) :
    (d.enter callback).2 = .ok () ↔ callback ∉ d.pending ∧ d.pending.length < d.limit := by
  unfold enter
  split
  · simp_all
  · split <;> simp_all

theorem pending_enter_of_ok {d : Dispatcher} {callback : Callback}
    (taken : (d.enter callback).2 = .ok ()) :
    (d.enter callback).1.pending = d.pending ++ [callback] := by
  obtain ⟨absent, room⟩ := (enter_eq_ok_iff d callback).1 taken
  simp [enter, absent, Nat.not_le.2 room]

theorem pending_enter_of_error {d : Dispatcher} {callback : Callback} {error : DispatchError}
    (refused : (d.enter callback).2 = .error error) :
    (d.enter callback).1.pending = d.pending := by
  unfold enter at refused ⊢
  split
  · simp
  · split <;> simp_all

/-- End a callback that was taken up. If its listener succeeded it leaves the queue; if not, the
whole chain is dropped. -/
def leave (d : Dispatcher) (callback : Callback) (result : Except ScriptError Unit) :
    Dispatcher :=
  match result with
  | .ok _ => { d with pending := eraseLast callback d.pending }
  | .error _ =>
    { d with
      failures := if d.circular then d.failures else d.failures + 1
      pending := [] }

@[simp] theorem limit_leave (d : Dispatcher) (callback : Callback)
    (result : Except ScriptError Unit) : (d.leave callback result).limit = d.limit := by
  cases result <;> rfl

def isIdle (d : Dispatcher) : Bool :=
  d.pending.isEmpty

end Dispatcher

end SignalRules
