import Mathlib.Data.List.Nodup
import SignalRules.Subscriptions

/-! # Subscription tables

A table that starts out empty and in which listeners are subscribed and unsubscribed one at a time
has one entry for a signal at most, with no listener in it twice. In such a table, subscribing and
unsubscribing do to the one subscription what their names say, and nothing to any other.
-/

namespace SignalRules

namespace Subscriptions

/-- How often the listener is subscribed to the signal, all entries taken together. -/
def count (t : Subscriptions) (signal : Ref) (id : ListenerId) : Nat :=
  ((t.entries.filter fun entry => entry.signal = signal).flatMap Subscription.listeners).count id

structure Proper (t : Subscriptions) : Prop where
  signals : (t.entries.map Subscription.signal).Nodup
  nodup : ∀ entry ∈ t.entries, entry.listeners.Nodup

theorem proper_empty : Proper {} :=
  ⟨List.nodup_nil, nofun⟩

variable {entry : Subscription} {entries : List Subscription} {t : Subscriptions}

theorem Proper.tail (proper : Proper ⟨entry :: entries⟩) : Proper ⟨entries⟩ :=
  ⟨(List.nodup_cons.1 proper.signals).2, fun other member =>
    proper.nodup other (List.mem_cons_of_mem _ member)⟩

/-- No later entry is for the signal of the first. -/
theorem Proper.listeners_tail (proper : Proper ⟨entry :: entries⟩) :
    listeners ⟨entries⟩ entry.signal = [] := by
  have absent : entries.find? (fun other => other.signal = entry.signal) = none := by
    rw [List.find?_eq_none]
    intro other member same
    refine (List.nodup_cons.1 proper.signals).1 (List.mem_map.2 ⟨other, member, ?_⟩)
    exact of_decide_eq_true same
  rw [listeners, absent]

/-- A listener is subscribed once or not at all. -/
theorem Proper.count_eq (proper : t.Proper) (signal : Ref) (id : ListenerId) :
    t.count signal id = if id ∈ t.listeners signal then 1 else 0 := by
  obtain ⟨entries⟩ := t
  have listed : (entries.filter fun entry => entry.signal = signal).flatMap Subscription.listeners =
      listeners ⟨entries⟩ signal := by
    induction entries with
    | nil => rfl
    | cons entry entries ih =>
      have rest := ih proper.tail
      rw [listeners_cons]
      by_cases here : entry.signal = signal
      · have none := proper.listeners_tail
        rw [here] at none
        simp only [List.filter_cons, here, decide_true, if_true, List.flatMap_cons, rest, none,
          List.append_nil]
      · simp only [List.filter_cons, here, decide_false, Bool.false_eq_true, if_false, rest]
  have nodup : (listeners ⟨entries⟩ signal).Nodup := by
    unfold listeners
    split
    · rename_i found
      exact proper.nodup _ (List.mem_of_find?_eq_some found)
    · exact List.nodup_nil
  rw [count, listed, nodup.count]

theorem mem_map_signal_insert {signal other : Ref} {id : ListenerId} :
    other ∈ (insert signal id entries).map Subscription.signal ↔
      other = signal ∨ other ∈ entries.map Subscription.signal := by
  induction entries with
  | nil => simp [insert]
  | cons entry entries ih =>
    unfold insert
    by_cases here : entry.signal = signal
    · rw [if_pos here]
      split <;> simp [here]
    · rw [if_neg here, List.map_cons, List.map_cons, List.mem_cons, List.mem_cons, ih]
      exact or_left_comm

theorem Proper.add (proper : t.Proper) (signal : Ref) (id : ListenerId) :
    (t.add signal id).Proper := by
  obtain ⟨entries⟩ := t
  unfold Subscriptions.add
  induction entries with
  | nil => exact ⟨List.nodup_singleton _, by simp [insert]⟩
  | cons entry entries ih =>
    obtain ⟨new, nodup⟩ := List.nodup_cons.1 proper.signals
    have others := fun other member => proper.nodup other (List.mem_cons_of_mem _ member)
    unfold insert
    by_cases here : entry.signal = signal
    · rw [if_pos here]
      split
      · exact proper
      · rename_i absent
        refine ⟨List.nodup_cons.2 ⟨new, nodup⟩, List.forall_mem_cons.2 ⟨?_, others⟩⟩
        rw [← List.concat_eq_append]
        exact (proper.nodup entry List.mem_cons_self).concat absent
    · rw [if_neg here]
      have rest := ih proper.tail
      refine ⟨List.nodup_cons.2 ⟨?_, rest.signals⟩, List.forall_mem_cons.2 ⟨?_, rest.nodup⟩⟩
      · rw [mem_map_signal_insert]
        exact not_or.2 ⟨here, new⟩
      · exact proper.nodup entry List.mem_cons_self

theorem Proper.remove (proper : t.Proper) (signal : Ref) (id : ListenerId) :
    (t.remove signal id).Proper := by
  constructor
  · refine List.Nodup.sublist (List.filter_sublist.map Subscription.signal) ?_
    rw [List.map_map]
    have kept : ∀ entry ∈ t.entries, (if entry.signal = signal then
        { entry with listeners := entry.listeners.filter (· ≠ id) } else entry).signal =
          entry.signal := by
      intro entry _
      split <;> rfl
    exact (List.map_congr_left kept) ▸ proper.signals
  · intro entry member
    obtain ⟨old, listed, rfl⟩ := List.mem_map.1 (List.mem_filter.1 member).1
    split
    · exact (proper.nodup old listed).filter _
    · exact proper.nodup old listed

/-- What is left of a subscription when a listener goes; all others stay as they are. -/
theorem Proper.listeners_remove (proper : t.Proper) (signal other : Ref) (id : ListenerId) :
    (t.remove signal id).listeners other =
      if other = signal then (t.listeners other).filter (· ≠ id) else t.listeners other := by
  obtain ⟨entries⟩ := t
  induction entries with
  | nil => simp [Subscriptions.remove, Subscriptions.listeners]
  | cons entry entries ih =>
    have rest := ih proper.tail
    obtain ⟨left, left_eq, removed⟩ := remove_cons entry entries signal id
    rw [removed, listeners_cons]
    by_cases here : entry.signal = other
    · subst here
      have none := proper.listeners_tail
      rw [none] at rest
      rw [if_pos rfl, ← left_eq]
      split
      · rename_i empty
        rw [rest, List.isEmpty_iff.1 empty]
        split <;> rfl
      · rw [listeners_cons, if_pos rfl]
    · rw [if_neg here, ← rest]
      split
      · rfl
      · rw [listeners_cons, if_neg here]

theorem Proper.mem_listeners_remove (proper : t.Proper) (signal other : Ref)
    (id listener : ListenerId) :
    id ∈ (t.remove signal listener).listeners other ↔
      id ∈ t.listeners other ∧ ¬ (other = signal ∧ id = listener) := by
  rw [proper.listeners_remove]
  by_cases here : other = signal <;> simp [here]

/-! ## Subscribing and unsubscribing again

To unsubscribe a listener drops all entries that are empty then, also those of other signals. In a
table without such entries it undoes what subscribing has done, down to the order of entries. -/

/-- Every entry has listeners. -/
def Filled (t : Subscriptions) : Prop :=
  ∀ entry ∈ t.entries, entry.listeners ≠ []

theorem filled_empty : Filled {} :=
  nofun

theorem Filled.add {t : Subscriptions} (filled : t.Filled) (signal : Ref) (id : ListenerId) :
    (t.add signal id).Filled := by
  obtain ⟨entries⟩ := t
  unfold Subscriptions.add
  induction entries with
  | nil => simp [Filled, insert]
  | cons entry entries ih =>
    obtain ⟨first, rest⟩ := List.forall_mem_cons.1 filled
    unfold insert
    split
    · split
      · exact filled
      · exact List.forall_mem_cons.2 ⟨by simp, rest⟩
    · exact List.forall_mem_cons.2 ⟨first, ih rest⟩

theorem filled_remove (t : Subscriptions) (signal : Ref) (id : ListenerId) :
    (t.remove signal id).Filled := by
  intro entry member
  simpa using (List.mem_filter.1 member).2

/-- The entry without a listener, if it is for one of these signals. -/
def without (signals : List Ref) (id : ListenerId) (entry : Subscription) : Subscription :=
  if entry.signal ∈ signals then { entry with listeners := entry.listeners.filter (· ≠ id) }
  else entry

/-- The entries without a listener to these signals, but for those that are empty then. -/
def strip (signals : List Ref) (id : ListenerId) (entries : List Subscription) :
    List Subscription :=
  (entries.map (without signals id)).filter fun entry => !entry.listeners.isEmpty

theorem entries_remove (t : Subscriptions) (signal : Ref) (id : ListenerId) :
    (t.remove signal id).entries = strip [signal] id t.entries := by
  unfold remove strip without
  simp only [List.mem_singleton]

/-- It does not matter whether a listener has been subscribed that is then stripped off. -/
theorem strip_insert {signals : List Ref} {signal : Ref} (listed : signal ∈ signals)
    (id : ListenerId) (entries : List Subscription) :
    strip signals id (insert signal id entries) = strip signals id entries := by
  induction entries with
  | nil => simp [insert, strip, without, listed]
  | cons entry entries ih =>
    unfold insert
    split
    · rename_i here
      split
      · rfl
      · simp [strip, without, here, listed]
    · unfold strip at ih ⊢
      rw [List.map_cons, List.map_cons, List.filter_cons, List.filter_cons, ih]

theorem without_without (first rest : List Ref) (id : ListenerId) (entry : Subscription) :
    without rest id (without first id entry) = without (first ++ rest) id entry := by
  unfold without
  by_cases inFirst : entry.signal ∈ first <;> by_cases inRest : entry.signal ∈ rest <;>
    simp [inFirst, inRest]

theorem strip_strip (first rest : List Ref) (id : ListenerId) (entries : List Subscription) :
    strip rest id (strip first id entries) = strip (first ++ rest) id entries := by
  induction entries with
  | nil => rfl
  | cons entry entries ih =>
    -- what the first pass drops, a single pass drops as well
    have empty : (without first id entry).listeners.isEmpty →
        (without (first ++ rest) id entry).listeners.isEmpty := by
      rw [← without_without]
      generalize without first id entry = left
      intro empty
      unfold without
      split <;> simp_all
    unfold strip at ih ⊢
    simp only [List.map_cons, List.filter_cons]
    cases isEmpty : (without first id entry).listeners.isEmpty with
    | true => simpa [isEmpty, empty isEmpty] using ih
    | false =>
      simp only [Bool.not_false, if_true, List.map_cons, List.filter_cons, without_without, ih]

theorem Proper.listeners_eq {t : Subscriptions} (proper : t.Proper) {entry : Subscription}
    (member : entry ∈ t.entries) : t.listeners entry.signal = entry.listeners := by
  obtain ⟨entries⟩ := t
  induction entries with
  | nil => cases member
  | cons first entries ih =>
    rw [listeners_cons]
    rcases List.mem_cons.1 member with rfl | later
    · rw [if_pos rfl]
    · have other : first.signal ≠ entry.signal := by
        intro same
        have new := (List.nodup_cons.1 proper.signals).1
        exact new (same ▸ List.mem_map_of_mem later)
      rw [if_neg other, ih proper.tail later]

theorem Filled.strip_eq_self {t : Subscriptions} (filled : t.Filled) {signals : List Ref}
    {id : ListenerId} (same : ∀ entry ∈ t.entries, without signals id entry = entry) :
    strip signals id t.entries = t.entries := by
  rw [strip, List.map_congr_left same, List.map_id', List.filter_eq_self]
  intro entry member
  simpa using filled entry member

/-- A listener that is not subscribed to a signal has no entry to be stripped off. -/
theorem Proper.without_eq_self {t : Subscriptions} (proper : t.Proper) {signals : List Ref}
    {id : ListenerId} (absent : ∀ signal ∈ signals, id ∉ t.listeners signal)
    {entry : Subscription} (member : entry ∈ t.entries) : without signals id entry = entry := by
  unfold without
  split
  · rename_i listed
    have stranger := absent entry.signal listed
    rw [proper.listeners_eq member] at stranger
    have all : entry.listeners.filter (· ≠ id) = entry.listeners := by
      rw [List.filter_eq_self]
      intro other listens
      exact decide_eq_true fun same => stranger (same ▸ listens)
    rw [all]
  · rfl

def addAll (signals : List Ref) (id : ListenerId) (t : Subscriptions) : Subscriptions :=
  signals.foldl (fun t signal => t.add signal id) t

def removeAll (signals : List Ref) (id : ListenerId) (t : Subscriptions) : Subscriptions :=
  signals.foldl (fun t signal => t.remove signal id) t

theorem mem_listeners_addAll {t : Subscriptions} {signals : List Ref} {signal : Ref}
    {id other : ListenerId} : other ∈ (t.addAll signals id).listeners signal ↔
      other ∈ t.listeners signal ∨ signal ∈ signals ∧ other = id := by
  induction signals generalizing t with
  | nil => simp [addAll]
  | cons first signals ih =>
    refine ih.trans ?_
    rw [mem_listeners_add, List.mem_cons, or_and_right, or_assoc]

theorem Filled.addAll {t : Subscriptions} (filled : t.Filled) (signals : List Ref)
    (id : ListenerId) : (addAll signals id t).Filled := by
  induction signals generalizing t with
  | nil => exact filled
  | cons signal signals ih => exact ih (filled.add signal id)

theorem strip_addAll {signals before : List Ref} (among : before ⊆ signals) (id : ListenerId)
    (t : Subscriptions) :
    strip signals id (addAll before id t).entries = strip signals id t.entries := by
  induction before generalizing t with
  | nil => rfl
  | cons signal before ih =>
    obtain ⟨listed, rest⟩ := List.cons_subset.1 among
    exact (ih rest (t.add signal id)).trans (strip_insert listed id t.entries)

theorem entries_removeAll {t : Subscriptions} (filled : t.Filled) (signals : List Ref)
    (id : ListenerId) : (removeAll signals id t).entries = strip signals id t.entries := by
  induction signals generalizing t with
  | nil => exact (filled.strip_eq_self fun entry _ => if_neg List.not_mem_nil).symm
  | cons signal signals ih =>
    have rest := ih (filled_remove t signal id)
    rw [entries_remove, strip_strip] at rest
    exact rest

/-- To subscribe a listener to some of these signals, and to unsubscribe it from all of them, comes
to nothing. -/
theorem removeAll_addAll {t : Subscriptions} (proper : t.Proper) (filled : t.Filled)
    {signals before : List Ref} (among : before ⊆ signals) {id : ListenerId}
    (absent : ∀ signal ∈ signals, id ∉ t.listeners signal) :
    removeAll signals id (addAll before id t) = t := by
  have same : (removeAll signals id (addAll before id t)).entries = t.entries := by
    rw [entries_removeAll (filled.addAll before id), strip_addAll among,
      filled.strip_eq_self fun entry member => proper.without_eq_self absent member]
  exact congrArg Subscriptions.mk same

end Subscriptions

end SignalRules
