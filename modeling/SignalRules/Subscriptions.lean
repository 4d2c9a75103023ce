import SignalRules.Callback
import SignalRules.Tree

/-! # Subscriptions

Which listeners want to be told about a signal on a host. Entries and their listeners stay in the
order in which they were made, so notifications are deterministic.
-/

namespace SignalRules

/-- The listeners of one signal on one host, in order of subscription. -/
structure Subscription where
  signal : Ref
  listeners : List ListenerId
  deriving DecidableEq

structure Subscriptions where
  entries : List Subscription := []
  deriving DecidableEq

namespace Subscriptions

/-- Subscribe in a list of entries; a listener that is subscribed keeps its place. -/
def insert (signal : Ref) (listener : ListenerId) : List Subscription → List Subscription
  | [] => [⟨signal, [listener]⟩]
  | entry :: entries =>
    if entry.signal = signal then
      if listener ∈ entry.listeners then entry :: entries
      else { entry with listeners := entry.listeners ++ [listener] } :: entries
    else entry :: insert signal listener entries

def add (t : Subscriptions) (signal : Ref) (listener : ListenerId) : Subscriptions :=
  ⟨insert signal listener t.entries⟩

def listeners (t : Subscriptions) (signal : Ref) : List ListenerId :=
  match t.entries.find? fun entry => entry.signal = signal with
  | some entry => entry.listeners
  | none => []

/-- The number of listeners of a signal on a host. -/
def listenerCount (t : Subscriptions) (signal : Ref) : Nat :=
  match t.entries.find? fun entry => entry.signal = signal with
  | some entry => entry.listeners.length
  | none => 0

theorem listenerCount_eq (t : Subscriptions) (signal : Ref) :
    t.listenerCount signal = (t.listeners signal).length := by
  unfold listenerCount listeners
  split <;> rfl

theorem listeners_cons (entry : Subscription) (entries : List Subscription) (signal : Ref) :
    listeners ⟨entry :: entries⟩ signal =
      if entry.signal = signal then entry.listeners else listeners ⟨entries⟩ signal := by
  unfold listeners
  by_cases same : entry.signal = signal <;> simp [same]

theorem find?_insert (signal other : Ref) (listener : ListenerId) (entries : List Subscription)
    (ne : other ≠ signal) :
    (insert signal listener entries).find? (fun entry => entry.signal = other) =
      entries.find? fun entry => entry.signal = other := by
  induction entries with
  | nil => simp [insert, ne.symm]
  | cons entry entries ih =>
    unfold insert
    split
    · split <;> simp_all [ne.symm]
    · simp [List.find?_cons, ih]

theorem listeners_add_of_ne (t : Subscriptions) {signal other : Ref} (listener : ListenerId)
    (ne : other ≠ signal) : (t.add signal listener).listeners other = t.listeners other := by
  simp [listeners, add, find?_insert signal other listener t.entries ne]

/-- A new subscription comes last, and one that is there already changes nothing. -/
theorem listeners_add_self (t : Subscriptions) (signal : Ref) (listener : ListenerId) :
    (t.add signal listener).listeners signal =
      if listener ∈ t.listeners signal then t.listeners signal
      else t.listeners signal ++ [listener] := by
  unfold listeners add
  induction t.entries with
  | nil => simp [insert]
  | cons entry entries ih =>
    unfold insert
    by_cases same : entry.signal = signal
    · by_cases present : listener ∈ entry.listeners <;> simp [same, present]
    · simpa [same, List.find?_cons] using ih

theorem mem_listeners_add (t : Subscriptions) (signal other : Ref) (listener id : ListenerId) :
    id ∈ (t.add signal listener).listeners other ↔
      id ∈ t.listeners other ∨ other = signal ∧ id = listener := by
  by_cases same : other = signal
  · subst same
    rw [listeners_add_self]
    split
    · rename_i present
      constructor
      · exact .inl
      · rintro (member | ⟨-, rfl⟩)
        · exact member
        · exact present
    · simp
  · simp [listeners_add_of_ne t listener same, same]

/-- Unsubscribe; an entry without listeners goes. -/
def remove (t : Subscriptions) (signal : Ref) (listener : ListenerId) : Subscriptions :=
  let without (entry : Subscription) : Subscription :=
    if entry.signal = signal then { entry with listeners := entry.listeners.filter (· ≠ listener) }
    else entry
  ⟨(t.entries.map without).filter fun entry => !entry.listeners.isEmpty⟩

theorem remove_cons (entry : Subscription) (entries : List Subscription) (signal : Ref)
    (listener : ListenerId) :
    ∃ left, left = (if entry.signal = signal then entry.listeners.filter (· ≠ listener)
        else entry.listeners) ∧
      remove ⟨entry :: entries⟩ signal listener =
        if left.isEmpty then remove ⟨entries⟩ signal listener
        else ⟨⟨entry.signal, left⟩ :: (remove ⟨entries⟩ signal listener).entries⟩ := by
  refine ⟨_, rfl, ?_⟩
  unfold remove
  by_cases same : entry.signal = signal
  · simp only [List.map_cons, if_pos same, List.filter_cons]
    cases (entry.listeners.filter (· ≠ listener)).isEmpty <;> rfl
  · simp only [List.map_cons, if_neg same, List.filter_cons]
    cases entry.listeners.isEmpty <;> rfl

theorem mem_listeners_remove_of_ne {t : Subscriptions} {signal other : Ref}
    {listener id : ListenerId} (ne : id ≠ listener) (member : id ∈ t.listeners other) :
    id ∈ (t.remove signal listener).listeners other := by
  obtain ⟨entries⟩ := t
  induction entries with
  | nil => cases member
  | cons entry entries ih =>
    obtain ⟨left, left_eq, removed⟩ := remove_cons entry entries signal listener
    rw [listeners_cons] at member
    rw [removed]
    by_cases here : entry.signal = other
    · rw [if_pos here] at member
      have kept : id ∈ left := by
        rw [left_eq]
        split
        · simp [member, ne]
        · exact member
      rw [if_neg (by simp [List.ne_nil_of_mem kept]), listeners_cons, if_pos here]
      exact kept
    · rw [if_neg here] at member
      split
      · exact ih member
      · rw [listeners_cons, if_neg here]
        exact ih member

def hosts (t : Subscriptions) (signal : String) : List HostId :=
  (t.entries.filter fun entry => entry.signal.name = signal).map fun entry => entry.signal.host

theorem mem_hosts_of_mem_listeners {t : Subscriptions} {signal : Ref} {id : ListenerId}
    (member : id ∈ t.listeners signal) : signal.host ∈ t.hosts signal.name := by
  unfold listeners at member
  split at member
  · rename_i entry found
    have same : entry.signal = signal := by simpa using List.find?_some found
    have inside := List.mem_of_find?_eq_some found
    rw [hosts, List.mem_map]
    exact ⟨entry, List.mem_filter.2 ⟨inside, by simp [same]⟩, by rw [same]⟩
  · cases member

end Subscriptions

end SignalRules
