import Mathlib.Data.List.Induction
import SignalRules.Proofs.Tables

/-! # Seniority

What a table of subscriptions says, told from the calls that were made to it and from nothing else.
A listener is subscribed if a call added it and none has removed it since. Listeners stand in the
order of the calls by which they came in, and hosts in the order of the calls by which they came to
be listened for.
-/

namespace SignalRules

/-- A call that changes subscriptions. -/
inductive SubscriptionCall where
  | add (signal : Ref) (id : ListenerId)
  | remove (signal : Ref) (id : ListenerId)
  deriving DecidableEq

namespace SubscriptionCall

def signal : SubscriptionCall → Ref
  | add signal _ => signal
  | remove signal _ => signal

/-- The listener was added, and not removed since. -/
def Present (calls : List SubscriptionCall) (signal : Ref) (id : ListenerId) : Prop :=
  ∃ before after, calls = before ++ add signal id :: after ∧ remove signal id ∉ after

/-- Somebody is present who listens to the signal. -/
def Heard (calls : List SubscriptionCall) (signal : Ref) : Prop :=
  ∃ id, Present calls signal id

/-- The call with this many calls before it is the one by which the listener is present. -/
structure PresentSince (calls : List SubscriptionCall) (signal : Ref) (id : ListenerId) (n : Nat) :
    Prop where
  added : calls[n]? = some (add signal id)
  new : ¬ Present (calls.take n) signal id
  kept : remove signal id ∉ calls.drop (n + 1)

/-- The call with this many calls before it is the one since which there has always been a
listener. -/
structure HeardSince (calls : List SubscriptionCall) (signal : Ref) (n : Nat) : Prop where
  inside : n < calls.length
  new : ¬ Heard (calls.take n) signal
  kept : ∀ m, n < m → m ≤ calls.length → Heard (calls.take m) signal

/-- The first listener came in earlier than the second. -/
def JoinedBefore (calls : List SubscriptionCall) (first second : Ref × ListenerId) : Prop :=
  ∃ m n, PresentSince calls first.1 first.2 m ∧ PresentSince calls second.1 second.2 n ∧ m < n

/-- The first signal came to be listened to earlier than the second. -/
def HeardBefore (calls : List SubscriptionCall) (first second : Ref) : Prop :=
  ∃ m n, HeardSince calls first m ∧ HeardSince calls second n ∧ m < n

/-! ## One more call -/

variable {calls : List SubscriptionCall} {call : SubscriptionCall} {signal : Ref} {id : ListenerId}

theorem not_present_nil : ¬ Present [] signal id := by
  rintro ⟨before, after, split, _⟩
  simp at split

theorem present_concat : Present (calls ++ [call]) signal id ↔
    call = add signal id ∨ Present calls signal id ∧ call ≠ remove signal id := by
  constructor
  · rintro ⟨before, after, split, kept⟩
    rcases List.eq_nil_or_concat' after with rfl | ⟨after, last, rfl⟩
    · exact .inl (List.append_inj_right' split rfl |> List.singleton_inj.1)
    · have split' : calls ++ [call] = (before ++ add signal id :: after) ++ [last] := by
        simpa using split
      obtain ⟨rfl, same⟩ := List.append_inj' split' rfl
      cases same
      refine .inr ⟨⟨before, after, rfl, fun member => kept (List.mem_append_left _ member)⟩, ?_⟩
      rintro rfl
      exact kept (List.mem_append_right _ List.mem_cons_self)
  · rintro (rfl | ⟨⟨before, after, rfl, kept⟩, other⟩)
    · exact ⟨calls, [], rfl, List.not_mem_nil⟩
    · refine ⟨before, after ++ [call], by simp, ?_⟩
      simpa [kept] using other.symm

namespace PresentSince

theorem concat {n : Nat} (since : PresentSince calls signal id n)
    (still : call ≠ remove signal id) : PresentSince (calls ++ [call]) signal id n := by
  obtain ⟨inside, same⟩ := List.getElem?_eq_some_iff.1 since.added
  refine ⟨?_, ?_, ?_⟩
  · rw [List.getElem?_append_left inside, since.added]
  · rw [List.take_append_of_le_length (Nat.le_of_lt inside)]
    exact since.new
  · rw [List.drop_append_of_le_length inside]
    simpa [since.kept] using still.symm

theorem last (new : ¬ Present calls signal id) :
    PresentSince (calls ++ [add signal id]) signal id calls.length where
  added := by simp
  new := by simpa using new
  kept := by simp

theorem inside {n : Nat} (since : PresentSince calls signal id n) : n < calls.length :=
  (List.getElem?_eq_some_iff.1 since.added).1

end PresentSince

theorem Present.exists_since (present : Present calls signal id) :
    ∃ n, PresentSince calls signal id n := by
  induction calls using List.reverseRecOn with
  | nil => exact (not_present_nil present).elim
  | append_singleton calls call ih =>
    by_cases before : Present calls signal id
    · obtain ⟨n, since⟩ := ih before
      refine ⟨n, since.concat ?_⟩
      rintro rfl
      simp [present_concat] at present
    · obtain rfl | ⟨present, _⟩ := present_concat.1 present
      · exact ⟨_, .last before⟩
      · exact (before present).elim

namespace HeardSince

theorem concat {n : Nat} (since : HeardSince calls signal n)
    (still : Heard (calls ++ [call]) signal) : HeardSince (calls ++ [call]) signal n where
  inside := by simpa using Nat.lt_succ_of_lt since.inside
  new := by
    rw [List.take_append_of_le_length (Nat.le_of_lt since.inside)]
    exact since.new
  kept := by
    intro m later within
    rcases Nat.lt_or_ge calls.length m with beyond | before
    · rwa [List.take_of_length_le (by simpa using Nat.succ_le_of_lt beyond)]
    · rw [List.take_append_of_le_length before]
      exact since.kept m later before

theorem last (new : ¬ Heard calls signal) (now : Heard (calls ++ [call]) signal) :
    HeardSince (calls ++ [call]) signal calls.length where
  inside := by simp
  new := by simpa using new
  kept := by
    intro m later _
    rwa [List.take_of_length_le (by simpa using Nat.succ_le_of_lt later)]

end HeardSince

theorem Heard.exists_since (heard : Heard calls signal) : ∃ n, HeardSince calls signal n := by
  induction calls using List.reverseRecOn with
  | nil => exact (not_present_nil heard.choose_spec).elim
  | append_singleton calls call ih =>
    by_cases before : Heard calls signal
    · obtain ⟨n, since⟩ := ih before
      exact ⟨n, since.concat heard⟩
    · exact ⟨_, .last before heard⟩

/-! ### Orders

Each of the calls in question is the only one of its kind. -/

theorem PresentSince.le {m n : Nat} (first : PresentSince calls signal id m)
    (second : PresentSince calls signal id n) : n ≤ m := by
  by_contra earlier
  have added : (calls.take n)[m]? = some (add signal id) := by
    rw [List.getElem?_take_of_lt (Nat.not_le.1 earlier), first.added]
  obtain ⟨inside, same⟩ := List.getElem?_eq_some_iff.1 added
  refine second.new ⟨(calls.take n).take m, (calls.take n).drop (m + 1), ?_, fun removed => ?_⟩
  · rw [← same, List.getElem_cons_drop, List.take_append_drop]
  · exact first.kept (((List.take_sublist n calls).drop (m + 1)).subset removed)

theorem HeardSince.le {m n : Nat} (first : HeardSince calls signal m)
    (second : HeardSince calls signal n) : n ≤ m := by
  by_contra earlier
  exact second.new (first.kept n (Nat.not_le.1 earlier) (Nat.le_of_lt second.inside))

theorem JoinedBefore.asymm {a b : Ref × ListenerId} (joined : JoinedBefore calls a b) :
    ¬ JoinedBefore calls b a := by
  obtain ⟨m, n, sinceA, sinceB, earlier⟩ := joined
  rintro ⟨n', m', sinceB', sinceA', later⟩
  have := sinceA.le sinceA'
  have := sinceB'.le sinceB
  omega

theorem HeardBefore.asymm {a b : Ref} (heard : HeardBefore calls a b) :
    ¬ HeardBefore calls b a := by
  obtain ⟨m, n, sinceA, sinceB, earlier⟩ := heard
  rintro ⟨n', m', sinceB', sinceA', later⟩
  have := sinceA.le sinceA'
  have := sinceB'.le sinceB
  omega

end SubscriptionCall

/-! ## Tables -/

namespace Subscriptions

open SubscriptionCall

def perform (t : Subscriptions) : SubscriptionCall → Subscriptions
  | .add signal id => t.add signal id
  | .remove signal id => t.remove signal id

/-- The table after these calls, if it was empty before them. -/
def after (calls : List SubscriptionCall) : Subscriptions :=
  calls.foldl perform {}

theorem after_concat (calls : List SubscriptionCall) (call : SubscriptionCall) :
    after (calls ++ [call]) = (after calls).perform call :=
  List.foldl_concat ..

theorem sound_after (calls : List SubscriptionCall) :
    (after calls).Proper ∧ (after calls).Filled := by
  induction calls using List.reverseRecOn with
  | nil => exact ⟨proper_empty, filled_empty⟩
  | append_singleton calls call ih =>
    rw [after_concat]
    cases call with
    | add signal id => exact ⟨ih.1.add signal id, ih.2.add signal id⟩
    | remove signal id => exact ⟨ih.1.remove signal id, filled_remove _ signal id⟩

variable {t : Subscriptions}

theorem Proper.nodup_listeners (proper : t.Proper) (signal : Ref) : (t.listeners signal).Nodup := by
  unfold listeners
  split
  · rename_i found
    exact proper.nodup _ (List.mem_of_find?_eq_some found)
  · exact List.nodup_nil

/-! ### Calls that change nothing -/

theorem add_of_mem {signal : Ref} {id : ListenerId} (present : id ∈ t.listeners signal) :
    t.add signal id = t := by
  obtain ⟨entries⟩ := t
  have same : insert signal id entries = entries := by
    induction entries with
    | nil => cases present
    | cons entry entries ih =>
      rw [listeners_cons] at present
      unfold insert
      by_cases here : entry.signal = signal
      · rw [if_pos here] at present ⊢
        rw [if_pos present]
      · rw [if_neg here] at present ⊢
        rw [ih present]
  exact congrArg Subscriptions.mk same

theorem Proper.remove_of_not_mem (proper : t.Proper) (filled : t.Filled) {signal : Ref}
    {id : ListenerId} (absent : id ∉ t.listeners signal) : t.remove signal id = t := by
  have same : (t.remove signal id).entries = t.entries := by
    rw [entries_remove]
    refine filled.strip_eq_self fun entry member => proper.without_eq_self ?_ member
    intro listed isListed
    rwa [List.mem_singleton.1 isListed]
  exact congrArg Subscriptions.mk same

/-! ### Hosts -/

theorem hosts_cons (entry : Subscription) (entries : List Subscription) (name : String) :
    hosts ⟨entry :: entries⟩ name =
      if entry.signal.name = name then entry.signal.host :: hosts ⟨entries⟩ name
      else hosts ⟨entries⟩ name := by
  unfold hosts
  by_cases here : entry.signal.name = name <;> simp [here]

theorem hosts_add_of_ne (t : Subscriptions) {signal : Ref} (id : ListenerId) {name : String}
    (other : name ≠ signal.name) : (t.add signal id).hosts name = t.hosts name := by
  obtain ⟨entries⟩ := t
  unfold Subscriptions.add
  induction entries with
  | nil => simp [insert, hosts, other.symm]
  | cons entry entries ih =>
    unfold insert
    split
    · split <;> simp only [hosts_cons]
    · simp only [hosts_cons, ih]

/-- A host that was not listened for comes last. -/
theorem hosts_add_self (t : Subscriptions) (signal : Ref) (id : ListenerId) :
    (t.add signal id).hosts signal.name =
      if signal.host ∈ t.hosts signal.name then t.hosts signal.name
      else t.hosts signal.name ++ [signal.host] := by
  obtain ⟨entries⟩ := t
  unfold Subscriptions.add
  induction entries with
  | nil => simp [insert, hosts]
  | cons entry entries ih =>
    unfold insert
    by_cases here : entry.signal = signal
    · rw [if_pos here]
      split <;> simp [hosts_cons, here]
    · rw [if_neg here, hosts_cons, ih, hosts_cons]
      by_cases same : entry.signal.name = signal.name
      · have apart : signal.host ≠ entry.signal.host := by
          intro host
          exact here (Ref.eq_of_same same host.symm)
        rw [if_pos same, if_pos same]
        simp only [List.mem_cons, or_iff_right apart]
        split <;> rfl
      · rw [if_neg same, if_neg same]

theorem signal_without (signals : List Ref) (id : ListenerId) (entry : Subscription) :
    (without signals id entry).signal = entry.signal := by
  unfold without
  split <;> rfl

theorem Proper.listeners_without (proper : t.Proper) (signal : Ref) (id : ListenerId)
    {entry : Subscription} (member : entry ∈ t.entries) :
    (without [signal] id entry).listeners = (t.remove signal id).listeners entry.signal := by
  rw [proper.listeners_remove, proper.listeners_eq member, without]
  simp only [List.mem_singleton]
  split <;> rfl

/-- The hosts that are left are those that are still listened for. -/
theorem Proper.hosts_remove (proper : t.Proper) (signal : Ref) (id : ListenerId) (name : String) :
    (t.remove signal id).hosts name =
      (t.hosts name).filter fun host => !((t.remove signal id).listeners ⟨name, host⟩).isEmpty := by
  simp only [hosts, entries_remove, strip, List.filter_map, List.map_map, List.filter_filter,
    Function.comp_def, signal_without]
  congr 1
  apply List.filter_congr
  intro entry member
  rw [proper.listeners_without signal id member, Bool.and_comm]
  by_cases same : entry.signal.name = name
  · subst same
    rfl
  · simp [same]

theorem Proper.mem_hosts_iff (proper : t.Proper) (filled : t.Filled) {name : String}
    {host : HostId} : host ∈ t.hosts name ↔ ∃ id, id ∈ t.listeners ⟨name, host⟩ := by
  constructor
  · intro member
    obtain ⟨entry, listed, rfl⟩ := List.mem_map.1 member
    obtain ⟨inside, named⟩ := List.mem_filter.1 listed
    have same : entry.signal = ⟨name, entry.signal.host⟩ := by
      rw [← of_decide_eq_true named]
    rw [← same, proper.listeners_eq inside]
    exact List.exists_mem_of_ne_nil _ (filled entry inside)
  · rintro ⟨id, member⟩
    exact mem_hosts_of_mem_listeners member

theorem Proper.nodup_hosts (proper : t.Proper) (name : String) : (t.hosts name).Nodup := by
  have fewer : (t.entries.filter fun entry => entry.signal.name = name).Sublist t.entries :=
    List.filter_sublist
  have distinct := proper.signals.sublist (fewer.map Subscription.signal)
  rw [hosts, List.Nodup, List.pairwise_map]
  rw [List.Nodup, List.pairwise_map] at distinct
  refine distinct.imp_of_mem fun {entry other} inside inside' apart same => apart ?_
  have named := of_decide_eq_true (List.mem_filter.1 inside).2
  have named' := of_decide_eq_true (List.mem_filter.1 inside').2
  exact Ref.eq_of_same (named.trans named'.symm) same

/-! ### All calls -/

variable {calls : List SubscriptionCall} {call : SubscriptionCall}

/-- What a call leaves alone. -/
theorem listeners_perform_of_ne (proper : t.Proper) {signal : Ref} (other : signal ≠ call.signal) :
    (t.perform call).listeners signal = t.listeners signal := by
  cases call with
  | add _ id => exact listeners_add_of_ne t id other
  | remove _ id => exact (proper.listeners_remove _ signal id).trans (if_neg other)

theorem mem_listeners_after (calls : List SubscriptionCall) (signal : Ref) (id : ListenerId) :
    id ∈ (after calls).listeners signal ↔ Present calls signal id := by
  induction calls using List.reverseRecOn with
  | nil => exact iff_of_false List.not_mem_nil not_present_nil
  | append_singleton calls call ih =>
    rw [after_concat, present_concat, ← ih]
    cases call with
    | add signal' id' =>
      rw [perform, mem_listeners_add]
      simp only [add.injEq, reduceCtorEq, ne_eq, not_false_eq_true, and_true]
      exact or_comm.trans (or_congr_left (and_congr eq_comm eq_comm))
    | remove signal' id' =>
      rw [perform, (sound_after calls).1.mem_listeners_remove]
      simp only [reduceCtorEq, false_or, ne_eq, remove.injEq]
      exact and_congr_right fun _ => not_congr (and_congr eq_comm eq_comm)

theorem mem_hosts_after (calls : List SubscriptionCall) (name : String) (host : HostId) :
    host ∈ (after calls).hosts name ↔ Heard calls ⟨name, host⟩ := by
  obtain ⟨proper, filled⟩ := sound_after calls
  rw [proper.mem_hosts_iff filled]
  exact exists_congr fun id => mem_listeners_after calls _ id

/-- Of a list that loses members, or gets a last one, the order follows from what it was. -/
theorem pairwise_of_grown {α : Type} {old new : List α} {R R' : α → α → Prop}
    (ordered : old.Pairwise R) (carried : ∀ a ∈ new, ∀ b ∈ new, R a b → R' a b)
    (grown : new.Sublist old ∨ ∃ last, new = old ++ [last] ∧ ∀ a ∈ old, R' a last) :
    new.Pairwise R' := by
  rcases grown with fewer | ⟨last, rfl, before⟩
  · exact (ordered.sublist fewer).imp_of_mem fun inA inB => carried _ inA _ inB
  · rw [List.pairwise_append]
    refine ⟨ordered.imp_of_mem fun inA inB => carried _ (by simp [inA]) _ (by simp [inB]),
      List.pairwise_singleton _ _, fun a inA b isLast => ?_⟩
    rw [List.mem_singleton.1 isLast]
    exact before a inA

theorem listeners_perform_cases (proper : t.Proper) (call : SubscriptionCall) (signal : Ref) :
    ((t.perform call).listeners signal).Sublist (t.listeners signal) ∨
      ∃ id, call = .add signal id ∧ id ∉ t.listeners signal ∧
        (t.perform call).listeners signal = t.listeners signal ++ [id] := by
  by_cases other : signal = call.signal
  · subst other
    cases call with
    | add signal id =>
      by_cases present : id ∈ t.listeners signal
      · exact .inl ((listeners_add_self t signal id).trans (if_pos present) ▸ .refl _)
      · exact .inr ⟨id, rfl, present, (listeners_add_self t signal id).trans (if_neg present)⟩
    | remove signal id =>
      have left := proper.listeners_remove signal signal id
      rw [if_pos rfl] at left
      exact .inl (left ▸ List.filter_sublist)
  · exact .inl (listeners_perform_of_ne proper other ▸ .refl _)

theorem hosts_perform_cases (proper : t.Proper) (call : SubscriptionCall) (name : String) :
    ((t.perform call).hosts name).Sublist (t.hosts name) ∨
      call.signal.name = name ∧ call.signal.host ∉ t.hosts name ∧
        (t.perform call).hosts name = t.hosts name ++ [call.signal.host] := by
  cases call with
  | remove signal id => exact .inl (proper.hosts_remove signal id name ▸ List.filter_sublist)
  | add signal id =>
    by_cases other : name = signal.name
    · subst other
      by_cases heard : signal.host ∈ t.hosts signal.name
      · exact .inl ((hosts_add_self t signal id).trans (if_pos heard) ▸ .refl _)
      · exact .inr ⟨rfl, heard, (hosts_add_self t signal id).trans (if_neg heard)⟩
    · exact .inl (hosts_add_of_ne t id other ▸ .refl _)

/-- Listeners stand in the order in which they came in. -/
theorem listeners_after_inOrder (calls : List SubscriptionCall) (signal : Ref) :
    ((after calls).listeners signal).Pairwise fun first second =>
      JoinedBefore calls (signal, first) (signal, second) := by
  induction calls using List.reverseRecOn with
  | nil => exact .nil
  | append_singleton calls call ih =>
    -- who is listed after the call was not removed by it, and keeps the call by which they came in
    have still : ∀ id ∈ (after (calls ++ [call])).listeners signal, call ≠ .remove signal id := by
      rintro id member rfl
      have present := (mem_listeners_after _ _ _).1 member
      simp [present_concat] at present
    refine pairwise_of_grown ih ?_ ?_
    · rintro first inFirst second inSecond ⟨m, n, since, since', earlier⟩
      exact ⟨m, n, since.concat (still _ inFirst), since'.concat (still _ inSecond), earlier⟩
    · rw [after_concat]
      refine (listeners_perform_cases (sound_after calls).1 call signal).imp_right ?_
      rintro ⟨id, rfl, new, grown⟩
      refine ⟨id, grown, fun first member => ?_⟩
      obtain ⟨m, since⟩ := ((mem_listeners_after _ _ _).1 member).exists_since
      rw [mem_listeners_after] at new
      exact ⟨m, calls.length, since.concat nofun, .last new, since.inside⟩

/-- Hosts stand in the order in which they came to be listened for. -/
theorem hosts_after_inOrder (calls : List SubscriptionCall) (name : String) :
    ((after calls).hosts name).Pairwise fun first second =>
      HeardBefore calls ⟨name, first⟩ ⟨name, second⟩ := by
  induction calls using List.reverseRecOn with
  | nil => exact .nil
  | append_singleton calls call ih =>
    have heard : ∀ host ∈ (after (calls ++ [call])).hosts name,
        Heard (calls ++ [call]) ⟨name, host⟩ := fun host member =>
      (mem_hosts_after _ _ _).1 member
    refine pairwise_of_grown ih ?_ ?_
    · rintro first inFirst second inSecond ⟨m, n, since, since', earlier⟩
      exact ⟨m, n, since.concat (heard _ inFirst), since'.concat (heard _ inSecond), earlier⟩
    · rw [after_concat] at heard ⊢
      refine (hosts_perform_cases (sound_after calls).1 call name).imp_right ?_
      rintro ⟨rfl, new, grown⟩
      refine ⟨_, grown, fun first member => ?_⟩
      have now : Heard (calls ++ [call]) call.signal :=
        heard call.signal.host (by rw [grown]; exact List.mem_append_right _ List.mem_cons_self)
      obtain ⟨m, since⟩ := ((mem_hosts_after _ _ _).1 member).exists_since
      rw [mem_hosts_after] at new
      refine ⟨m, calls.length, since.concat (heard _ (by simp [grown, member])), ?_, since.inside⟩
      exact .last new now

/-- A call has a part only in whether the host of its own signal is listened for. -/
theorem hosts_perform_apart (proper : t.Proper) (filled : t.Filled) (call : SubscriptionCall)
    (name : String) :
    ((t.perform call).hosts name).filter (fun host => (⟨name, host⟩ : Ref) ≠ call.signal) =
      (t.hosts name).filter fun host => (⟨name, host⟩ : Ref) ≠ call.signal := by
  cases call with
  | add signal id =>
    rw [perform]
    by_cases other : name = signal.name
    · subst other
      rw [hosts_add_self]
      split
      · rfl
      · simp [List.filter_append, SubscriptionCall.signal]
    · rw [hosts_add_of_ne t id other]
  | remove signal id =>
    rw [perform, proper.hosts_remove, List.filter_filter]
    apply List.filter_congr
    intro host member
    by_cases here : (⟨name, host⟩ : Ref) = signal
    · simp [SubscriptionCall.signal, here]
    · obtain ⟨other, heard⟩ := (proper.mem_hosts_iff filled).1 member
      rw [proper.listeners_remove, if_neg here]
      simp [List.ne_nil_of_mem heard]

/-- A list is settled by its members and their order. -/
theorem eq_of_inOrder {α : Type} {R : α → α → Prop} {list list' : List α}
    (asymm : ∀ {a b}, R a b → ¬ R b a) (once : list.Nodup) (once' : list'.Nodup)
    (members : ∀ a, a ∈ list ↔ a ∈ list') (inOrder : list.Pairwise R)
    (inOrder' : list'.Pairwise R) : list = list' :=
  ((List.perm_ext_iff_of_nodup once once').2 members).eq_of_pairwise
    (fun _ _ _ _ first second => (asymm first second).elim) inOrder inOrder'

/-- What a table says, and how single calls change it, told from the calls made so far. -/
structure Recounts (t : Subscriptions) (calls : List SubscriptionCall) : Prop where
  listed : ∀ signal id, id ∈ t.listeners signal ↔ Present calls signal id
  once : ∀ signal, (t.listeners signal).Nodup
  inOrder : ∀ signal, (t.listeners signal).Pairwise fun first second =>
    JoinedBefore calls (signal, first) (signal, second)
  counted : ∀ signal, t.listenerCount signal = (t.listeners signal).length
  hosts_listed : ∀ name host, host ∈ t.hosts name ↔ Heard calls ⟨name, host⟩
  hosts_once : ∀ name, (t.hosts name).Nodup
  hosts_inOrder : ∀ name, (t.hosts name).Pairwise fun first second =>
    HeardBefore calls ⟨name, first⟩ ⟨name, second⟩
  /-- To add a listener that is present changes nothing. -/
  idle_add : ∀ signal, ∀ id ∈ t.listeners signal, t.perform (.add signal id) = t
  /-- To remove a listener that is absent changes nothing. -/
  idle_remove : ∀ signal, ∀ id ∉ t.listeners signal, t.perform (.remove signal id) = t
  /-- No call has a part in what is said of other signals, or of the same signal on other hosts. -/
  apart : ∀ call signal, signal ≠ call.signal →
    (t.perform call).listeners signal = t.listeners signal ∧
      (t.perform call).listenerCount signal = t.listenerCount signal
  hosts_apart : ∀ call name,
    ((t.perform call).hosts name).filter (fun host => (⟨name, host⟩ : Ref) ≠ call.signal) =
      (t.hosts name).filter fun host => (⟨name, host⟩ : Ref) ≠ call.signal

/-- The calls leave no choice as to what the table says. -/
theorem Recounts.unique {t t' : Subscriptions} (recounts : t.Recounts calls)
    (recounts' : t'.Recounts calls) : t.listeners = t'.listeners ∧ t.hosts = t'.hosts := by
  refine ⟨funext fun signal => ?_, funext fun name => ?_⟩
  · exact eq_of_inOrder JoinedBefore.asymm (recounts.once signal) (recounts'.once signal)
      (fun id => (recounts.listed signal id).trans (recounts'.listed signal id).symm)
      (recounts.inOrder signal) (recounts'.inOrder signal)
  · exact eq_of_inOrder HeardBefore.asymm (recounts.hosts_once name) (recounts'.hosts_once name)
      (fun host => (recounts.hosts_listed name host).trans (recounts'.hosts_listed name host).symm)
      (recounts.hosts_inOrder name) (recounts'.hosts_inOrder name)

/-- After any calls, a table is a set of listeners for each signal and host, in order of
seniority. -/
theorem after_recounts (calls : List SubscriptionCall) : (after calls).Recounts calls := by
  obtain ⟨proper, filled⟩ := sound_after calls
  have apart : ∀ call signal, signal ≠ call.signal →
      ((after calls).perform call).listeners signal = (after calls).listeners signal :=
    fun call signal => listeners_perform_of_ne proper
  exact
    { listed := mem_listeners_after calls
      once := proper.nodup_listeners
      inOrder := listeners_after_inOrder calls
      counted := listenerCount_eq _
      hosts_listed := mem_hosts_after calls
      hosts_once := proper.nodup_hosts
      hosts_inOrder := hosts_after_inOrder calls
      idle_add := fun signal id present => add_of_mem present
      idle_remove := fun signal id absent => proper.remove_of_not_mem filled absent
      apart := fun call signal other => by
        simp only [listenerCount_eq, apart call signal other, and_self]
      hosts_apart := hosts_perform_apart proper filled }

end Subscriptions

end SignalRules
