import SignalRules.Proofs.Ending
import SignalRules.Proofs.Queue
import SignalRules.Proofs.Rollback
import SignalRules.Proofs.Seniority

/-! # Notification

A change of a global signal is told host by host and, on each host, listener by listener, up to the
first error. Listeners may make any requests while they are told, further changes of the same signal
included. As long as they leave the subscriptions as they are, nobody is told twice or passed over.
-/

namespace SignalRules

open SubscriptionCall

namespace Subscriptions

/-- Everybody who listens to a signal, in the order in which they are told. -/
def subscribers (t : Subscriptions) (signal : String) : List (HostId × ListenerId) :=
  (t.hosts signal).flatMap fun host => (t.listeners ⟨signal, host⟩).map (host, ·)

theorem mem_subscribers {t : Subscriptions} {signal : String} {host : HostId} {id : ListenerId} :
    (host, id) ∈ t.subscribers signal ↔ id ∈ t.listeners ⟨signal, host⟩ := by
  simp only [subscribers, List.mem_flatMap, List.mem_map, Prod.mk.injEq]
  constructor
  · rintro ⟨_, _, _, listed, rfl, rfl⟩
    exact listed
  · intro listed
    exact ⟨host, mem_hosts_of_mem_listeners listed, id, listed, rfl, rfl⟩

/-- On one host, the listener who came in earlier comes sooner; of two hosts, the one that came to
be listened for earlier. -/
def Sooner (calls : List SubscriptionCall) (signal : String) (first second : HostId × ListenerId) :
    Prop :=
  if first.1 = second.1 then
    JoinedBefore calls (⟨signal, first.1⟩, first.2) (⟨signal, second.1⟩, second.2)
  else HeardBefore calls ⟨signal, first.1⟩ ⟨signal, second.1⟩

theorem nodup_subscribers {t : Subscriptions} (proper : t.Proper) (signal : String) :
    (t.subscribers signal).Nodup := by
  refine List.nodup_flatMap.2 ⟨fun host _ => ?_, ?_⟩
  · exact (proper.nodup_listeners _).map fun _ _ same => (Prod.mk.inj same).2
  · refine (proper.nodup_hosts signal).imp fun {host other} apart => ?_
    rintro subscriber here there
    obtain ⟨_, _, rfl⟩ := List.mem_map.1 here
    obtain ⟨_, _, same⟩ := List.mem_map.1 there
    exact apart (Prod.mk.inj same).1.symm

theorem subscribers_after_inOrder (calls : List SubscriptionCall) (signal : String) :
    ((after calls).subscribers signal).Pairwise (Sooner calls signal) := by
  refine List.pairwise_flatMap.2 ⟨fun host _ => ?_, ?_⟩
  · refine List.pairwise_map.2 ((listeners_after_inOrder calls ⟨signal, host⟩).imp ?_)
    intro first second joined
    exact (if_pos rfl).mpr joined
  · refine (List.pairwise_and_iff.2 ⟨hosts_after_inOrder calls signal,
      (sound_after calls).1.nodup_hosts signal⟩).imp ?_
    rintro host other ⟨heard, apart⟩ first inFirst second inSecond
    obtain ⟨_, _, rfl⟩ := List.mem_map.1 inFirst
    obtain ⟨_, _, rfl⟩ := List.mem_map.1 inSecond
    exact (if_neg apart).mpr heard

end Subscriptions

namespace Globals

/-- To write what is there already changes nothing. -/
theorem put_of_get? {g : Globals} {name : String} {value : Value}
    (stored : g.get? name = some value) : g.put name value = g := by
  obtain ⟨entries⟩ := g
  have same : write name value entries = entries := by
    induction entries with
    | nil => cases stored
    | cons entry entries ih =>
      obtain ⟨key, old⟩ := entry
      rw [get?, lookup_pair] at stored
      unfold write
      by_cases here : key = name
      · subst here
        rw [if_pos rfl, Option.some.injEq] at stored
        rw [if_pos rfl, stored]
      · rw [if_neg (Ne.symm here)] at stored
        rw [if_neg here, ih stored]
  exact congrArg Globals.mk same

end Globals

/-- A subscriber was told, and this is what came of it. -/
structure Telling where
  host : HostId
  listener : ListenerId
  result : Except ScriptError Unit

namespace Telling

def subscriber (telling : Telling) : HostId × ListenerId :=
  (telling.host, telling.listener)

/-- Of these subscribers all were told, or those up to the first error. -/
inductive Covers : List Telling → List (HostId × ListenerId) → Except ScriptError Unit → Prop where
  | all : Covers [] [] (.ok ())
  | next {host : HostId} {listener : ListenerId} {told : List Telling}
      {subscribers : List (HostId × ListenerId)} {result : Except ScriptError Unit} :
    Covers told subscribers result →
      Covers (⟨host, listener, .ok ()⟩ :: told) ((host, listener) :: subscribers) result
  | stop {host : HostId} {listener : ListenerId} {subscribers : List (HostId × ListenerId)}
      {error : ScriptError} :
    Covers [⟨host, listener, .error error⟩] ((host, listener) :: subscribers) (.error error)

namespace Covers

variable {told rest : List Telling} {subscribers others : List (HostId × ListenerId)}
  {result : Except ScriptError Unit} {error : ScriptError}

theorem append : ∀ {told subscribers}, Covers told subscribers (.ok ()) →
    Covers rest others result → Covers (told ++ rest) (subscribers ++ others) result
  | _, _, .all, last => last
  | _, _, .next covers, last => .next (covers.append last)

theorem append_of_error (others : List (HostId × ListenerId)) : ∀ {told subscribers},
    Covers told subscribers (.error error) → Covers told (subscribers ++ others) (.error error)
  | _, _, .next covers => .next (covers.append_of_error others)
  | _, _, .stop => .stop

theorem isPrefix (covers : Covers told subscribers result) :
    told.map subscriber <+: subscribers := by
  induction covers with
  | all => exact List.prefix_rfl
  | next _ ih => exact List.cons_prefix_cons.2 ⟨rfl, ih⟩
  | stop => exact List.cons_prefix_cons.2 ⟨rfl, List.nil_prefix⟩

theorem complete : ∀ {told subscribers}, Covers told subscribers (.ok ()) →
    told.map subscriber = subscribers ∧ ∀ telling ∈ told, telling.result = .ok ()
  | _, _, .all => ⟨rfl, List.forall_mem_nil _⟩
  | _, _, .next covers =>
    ⟨congrArg (List.cons _) covers.complete.1, List.forall_mem_cons.2 ⟨rfl, covers.complete.2⟩⟩

theorem broken : ∀ {told subscribers}, Covers told subscribers (.error error) →
    ∃ before last, told = before ++ [last] ∧ last.result = .error error ∧
      ∀ telling ∈ before, telling.result = .ok ()
  | _, _, .stop => ⟨[], _, rfl, rfl, List.forall_mem_nil _⟩
  | _, _, .next covers => by
    obtain ⟨before, last, rfl, failed, fine⟩ := covers.broken
    exact ⟨_ :: before, last, rfl, failed, List.forall_mem_cons.2 ⟨rfl, fine⟩⟩

end Covers

end Telling

namespace Engine

open Telling

variable {σ : Type}

/-! ## Telling subscribers -/

/-- Carry out requests as a handler does, as long as each of them leaves the subscriptions as they
are. -/
def steady (handler : Handler σ) : Handler σ := fun request => do
  let before := (← get).subscriptions
  let result ← handler request
  if (← get).subscriptions = before then return result else failure

theorem steady_eq_some_iff {handler : Handler σ} {request : Request} {e e' : Engine σ}
    {result : Except ScriptError Unit} :
    steady handler request e = some (result, e') ↔
      handler request e = some (result, e') ∧ e'.subscriptions = e.subscriptions := by
  rw [steady, Run.get_bind_apply, Run.bind_eq_some_iff]
  constructor
  · rintro ⟨result', e₁, ran, ended⟩
    rw [Run.get_bind_apply] at ended
    split at ended
    · rename_i kept
      cases ended
      exact ⟨ran, kept⟩
    · cases ended
  · rintro ⟨ran, kept⟩
    refine ⟨result, e', ran, ?_⟩
    rw [Run.get_bind_apply, if_pos kept]
    rfl

/-- Steady runs are runs. -/
theorem Refines.steady {handler : Handler σ} (request : Request) :
    Refines (steady handler request) (handler request) :=
  fun _ _ _ run => (steady_eq_some_iff.1 run).1

/-- One after the other, and with nothing else in between, a handler tells these subscribers of a
change. -/
inductive TellsInTurn (handler : Handler σ) (signal : String) :
    Engine σ → List Telling → Engine σ → Prop where
  | nobody (e : Engine σ) : TellsInTurn handler signal e [] e
  | next {e e₁ e' : Engine σ} {host : HostId} {listener : ListenerId}
      {result : Except ScriptError Unit} {told : List Telling} :
    handler (.schedule ⟨signal, listener⟩) e = some (result, e₁) →
      TellsInTurn handler signal e₁ told e' →
        TellsInTurn handler signal e (⟨host, listener, result⟩ :: told) e'

theorem TellsInTurn.append {handler : Handler σ} {signal : String} {e e₁ e' : Engine σ}
    {told rest : List Telling} (first : TellsInTurn handler signal e told e₁)
    (second : TellsInTurn handler signal e₁ rest e') :
    TellsInTurn handler signal e (told ++ rest) e' := by
  induction first with
  | nobody _ => exact second
  | next ran _ ih => exact .next ran (ih second)

/-- A steady handler tells listeners as the handler does. -/
theorem TellsInTurn.of_steady {handler : Handler σ} {signal : String} {e e' : Engine σ}
    {told : List Telling} (tells : TellsInTurn (steady handler) signal e told e') :
    TellsInTurn handler signal e told e' ∧ e'.subscriptions = e.subscriptions := by
  induction tells with
  | nobody e => exact ⟨.nobody e, rfl⟩
  | next ran _ ih =>
    obtain ⟨scheduled, kept⟩ := steady_eq_some_iff.1 ran
    exact ⟨.next scheduled ih.1, ih.2.trans kept⟩

section

variable {handler : Handler σ} {signal : String} {e' : Engine σ} {result : Except ScriptError Unit}

theorem told_of_announce {e : Engine σ} {host : HostId}
    (run : announce handler ⟨signal, host⟩ e = some (result, e')) :
    ∃ told, TellsInTurn handler signal e told e' ∧
      Covers told ((e.subscriptions.listeners ⟨signal, host⟩).map (host, ·)) result := by
  rw [announce, Run.get_bind_apply] at run
  generalize e.subscriptions.listeners ⟨signal, host⟩ = listeners at run ⊢
  induction listeners generalizing e with
  | nil =>
    cases run
    exact ⟨[], .nobody _, .all⟩
  | cons listener listeners ih =>
    obtain ⟨answer, e₁, scheduled, run⟩ := Run.bind_eq_some_iff.1 run
    cases answer with
    | error error =>
      cases run
      exact ⟨_, .next scheduled (.nobody _), .stop⟩
    | ok _ =>
      obtain ⟨told, tells, covers⟩ := ih run
      exact ⟨_, .next scheduled tells, .next covers⟩

theorem tells_of_announce {e : Engine σ} {host : HostId}
    (run : announce (steady handler) ⟨signal, host⟩ e = some (result, e')) :
    e'.subscriptions = e.subscriptions ∧ ∃ told, TellsInTurn handler signal e told e' ∧
      Covers told ((e.subscriptions.listeners ⟨signal, host⟩).map (host, ·)) result := by
  obtain ⟨told, tells, covers⟩ := told_of_announce run
  exact ⟨tells.of_steady.2, told, tells.of_steady.1, covers⟩

/-- The hosts, and on each of them the listeners, are looked up only when it comes to them. -/
theorem tells_of_announceEverywhere {e : Engine σ}
    (run : announceEverywhere (steady handler) signal e = some (result, e')) :
    ∃ told, TellsInTurn handler signal e told e' ∧
      Covers told (e.subscriptions.subscribers signal) result := by
  rw [announceEverywhere, Run.get_bind_apply] at run
  unfold Subscriptions.subscribers
  generalize e.subscriptions.hosts signal = hosts at run ⊢
  induction hosts generalizing e with
  | nil =>
    cases run
    exact ⟨[], .nobody _, .all⟩
  | cons host hosts ih =>
    obtain ⟨answer, e₁, ran, run⟩ := Run.bind_eq_some_iff.1 run
    obtain ⟨kept, told, tells, covers⟩ := tells_of_announce ran
    rw [List.flatMap_cons]
    cases answer with
    | error error =>
      cases run
      exact ⟨told, tells, covers.append_of_error _⟩
    | ok _ =>
      obtain ⟨rest, tells', covers'⟩ := ih run
      rw [kept] at covers'
      exact ⟨told ++ rest, tells.append tells', covers.append covers'⟩

end

/-! ## Global signals -/

section

variable {e e' : Engine σ} {calls : List SubscriptionCall} {name : String} {n : Fixed}
  {result : Except ScriptError Unit}

theorem serve_set {handler : Handler σ} (valid : Globals.isName name) (e : Engine σ) :
    serve handler (.set name (.number n)) e = setGlobal handler name (.number n) e := by
  simp only [serve, if_pos valid, Value.asNumber]

/-- A value that is stored already makes no difference. -/
theorem set_stored (valid : Globals.isName name) (stored : e.globals.get? name = some (.number n))
    (handler : Handler σ) : serve handler (.set name (.number n)) e = some (.ok (), e) := by
  rw [serve_set valid, setGlobal, Run.get_bind_apply, Run.modify_bind_apply, if_pos stored,
    Globals.put_of_get? stored]
  rfl

theorem tells_of_set {handler : Handler σ} (valid : Globals.isName name)
    (changed : e.globals.get? name ≠ some (.number n))
    (run : serve (steady handler) (.set name (.number n)) e = some (result, e')) :
    ∃ told, TellsInTurn handler (Globals.fullName name)
        { e with globals := e.globals.put name (.number n) } told e' ∧
      Covers told (e.subscriptions.subscribers (Globals.fullName name)) result := by
  rw [serve_set valid, setGlobal, Run.get_bind_apply, Run.modify_bind_apply, if_neg changed] at run
  exact tells_of_announceEverywhere run

end

/-- Every table that comes about is what some calls make of the empty one. -/
theorem Reachable.exists_calls {e : Engine σ} (reachable : Reachable e) :
    ∃ calls, e.subscriptions = .after calls := by
  refine Reachable.table (P := fun t => ∃ calls, t = .after calls) ?_ ?_ ⟨[], rfl⟩ reachable
  · rintro _ signal id ⟨calls, rfl⟩
    exact ⟨_, (Subscriptions.after_concat calls (.add signal id)).symm⟩
  · rintro _ signal id ⟨calls, rfl⟩
    exact ⟨_, (Subscriptions.after_concat calls (.remove signal id)).symm⟩

/-- What comes of a set of a new value. The listeners that the calls have left subscribed are told,
all of them once or, if there is an error, those up to the one that it comes from. -/
structure Spread (depth : Nat) (calls : List SubscriptionCall) (e : Engine σ) (name : String)
    (value : Value) (start : Engine σ) (told : List Telling) (result : Except ScriptError Unit)
    (e' : Engine σ) : Prop where
  run : handle (depth + 1) (.set name value) e = some (result, e')
  written : start = { e with globals := e.globals.put name value }
  stored : start.globals.get? name = some value
  tells : TellsInTurn (handle depth) (Globals.fullName name) start told e'
  once : (told.map subscriber).Nodup
  ok : result = .ok () →
    told.map subscriber = e.subscriptions.subscribers (Globals.fullName name) ∧
      ∀ telling ∈ told, telling.result = .ok ()
  everybody : result = .ok () → ∀ host id,
    (host, id) ∈ told.map subscriber ↔ Present calls ⟨Globals.fullName name, host⟩ id
  error : ∀ error, result = .error error →
    told.map subscriber <+: e.subscriptions.subscribers (Globals.fullName name) ∧
      ∃ before last, told = before ++ [last] ∧ last.result = .error error ∧
        ∀ telling ∈ before, telling.result = .ok ()

theorem mem_subscribers_after {e : Engine σ} {calls : List SubscriptionCall}
    (built : e.subscriptions = .after calls) (signal : String) (host : HostId) (id : ListenerId) :
    (host, id) ∈ e.subscriptions.subscribers signal ↔ Present calls ⟨signal, host⟩ id := by
  rw [Subscriptions.mem_subscribers, built, Subscriptions.mem_listeners_after]

/-- A set of the stored value does nothing. A set of a new value tells every subscriber once,
whatever the listeners do, as long as they leave the subscriptions as they are. -/
theorem set_tells_once {e : Engine σ} {calls : List SubscriptionCall} {name : String} (n : Fixed)
    (built : e.subscriptions = .after calls) (valid : Globals.isName name) :
    (e.globals.get? name = some (.number n) → ∀ handler : Handler σ,
      serve handler (.set name (.number n)) e = some (.ok (), e)) ∧
    (e.globals.get? name ≠ some (.number n) → ∀ depth result e',
      serve (steady (handle depth)) (.set name (.number n)) e = some (result, e') →
        ∃ start told, Spread depth calls e name (.number n) start told result e') := by
  refine ⟨set_stored valid, fun changed depth result e' run => ?_⟩
  obtain ⟨told, tells, covers⟩ := tells_of_set valid changed run
  have distinct : (e.subscriptions.subscribers (Globals.fullName name)).Nodup :=
    Subscriptions.nodup_subscribers (built ▸ (Subscriptions.sound_after calls).1) _
  refine ⟨_, told,
    { run := Refines.serve Refines.steady _ _ _ _ run
      written := rfl
      stored := (Globals.get?_put _ _ _ _).trans (if_pos rfl)
      tells
      once := distinct.sublist covers.isPrefix.sublist
      ok := ?_
      everybody := ?_
      error := ?_ }⟩
  · rintro rfl
    exact covers.complete
  · rintro rfl host id
    rw [covers.complete.1, mem_subscribers_after built]
  · rintro error rfl
    exact ⟨covers.isPrefix, covers.broken⟩

def upstairs : HostId := ⟨1⟩

def downstairs : HostId := ⟨2⟩

def bellCalls : List SubscriptionCall :=
  [.add ⟨"Signals.Bell", upstairs⟩ ⟨1⟩, .add ⟨"Signals.Bell", downstairs⟩ ⟨2⟩,
    .add ⟨"Signals.Bell", upstairs⟩ ⟨3⟩]

/-- Two listen for the bell upstairs, and one who came in between them downstairs. The first also
sets another signal, whatever comes of it. -/
def household : Engine Unit :=
  { create {} () with
    globals := ({} : Globals).put "Bell" (.number .zero)
    subscriptions := .after bellCalls
    listeners := [
      .external "first" fun _ => .request (.set "Light" (.number .one)) fun _ => .finish (.ok ()),
      .external "second" fun _ => .finish (.ok ()),
      .external "third" fun _ => .finish (.ok ())] }

theorem household_told_once :
    serve (handle 1) (.set "Bell" (.number .zero)) household = some (.ok (), household) ∧
    ∃ e', serve (steady (handle 2)) (.set "Bell" (.number .one)) household = some (.ok (), e') ∧
      ∃ start told,
        Spread 2 bellCalls household "Bell" (.number .one) start told (.ok ()) e' := by
  have answer : (serve (steady (handle 2)) (.set "Bell" (.number .one)) household).map Prod.fst =
      some (.ok ()) := rfl
  obtain ⟨⟨_, e'⟩, run, rfl⟩ := Option.map_eq_some_iff.1 answer
  have valid : Globals.isName "Bell" := by decide
  exact ⟨(set_tells_once .zero rfl valid).1 rfl _, e', run,
    (set_tells_once .one rfl valid).2 (by decide) _ _ _ run⟩

/-! ## The order -/

/-- If no listener fails, only what is pending from the start can keep a listener from being
called. -/
theorem TellsInTurn.orderly {depth : Nat} {signal : String} {e e' : Engine σ} {told : List Telling}
    (tells : TellsInTurn (handle depth) signal e told e') :
    ∃ events, Orderly e events e' ∧ ((∀ event ∈ events, ¬event.isFailure) →
      ∀ telling ∈ told, telling.result = .ok () ∨
        ⟨signal, telling.listener⟩ ∈ e.dispatcher.pending ∨
          e.dispatcher.limit ≤ e.dispatcher.pending.length) := by
  induction tells with
  | nobody e => exact ⟨[], .of_same rfl (List.append_nil _).symm (List.forall_mem_nil _),
      fun _ => List.forall_mem_nil _⟩
  | @next e e₁ e' host listener result told ran _ ih =>
    obtain ⟨first, orderly⟩ := Orderly.closed.handle depth _ _ _ _ ran
    obtain ⟨rest, orderly', others⟩ := ih
    refine ⟨_, orderly.trans orderly', fun smooth => List.forall_mem_cons.2 ⟨?_, ?_⟩⟩
    · obtain ⟨_, discipline⟩ := schedule_discipline ran
      obtain rfl := List.append_cancel_left (discipline.journal.symm.trans orderly.journal)
      by_cases turnedAway : ⟨signal, listener⟩ ∈ e.dispatcher.pending ∨
          e.dispatcher.limit ≤ e.dispatcher.pending.length
      · exact .inr turnedAway
      · obtain ⟨absent, room⟩ := not_or.1 turnedAway
        obtain ⟨inner, rfl⟩ := discipline.taken absent (Nat.not_le.1 room)
        -- a listener that was called and has failed is in the journal
        cases result with
        | ok _ => exact .inl rfl
        | error error =>
          exact absurd rfl (smooth (.left ⟨signal, listener⟩ (.error error) _)
            (List.mem_append_left _ (List.mem_append_right _ List.mem_cons_self)))
    · rw [orderly.kept fun event member => smooth event (List.mem_append_left _ member),
        orderly.limit] at others
      exact others fun event member => smooth event (List.mem_append_right _ member)

/-- If no listener fails, the listeners of each host are told in the order in which their present
subscriptions were made, and the hosts in the order in which they came to be listened for. Everybody
is told, unless a callback is refused because of what is pending already. -/
theorem set_tells_in_order {e e' : Engine σ} {calls : List SubscriptionCall} {name : String}
    {n : Fixed} {depth : Nat} {result : Except ScriptError Unit} {events : List Event}
    (built : e.subscriptions = .after calls) (valid : Globals.isName name)
    (changed : e.globals.get? name ≠ some (.number n))
    (run : serve (steady (handle depth)) (.set name (.number n)) e = some (result, e'))
    (journal : e'.journal = e.journal ++ events) (smooth : ∀ event ∈ events, ¬event.isFailure) :
    ∃ told, TellsInTurn (handle depth) (Globals.fullName name)
        { e with globals := e.globals.put name (.number n) } told e' ∧
      Covers told (e.subscriptions.subscribers (Globals.fullName name)) result ∧
      (told.map subscriber).Pairwise (Subscriptions.Sooner calls (Globals.fullName name)) ∧
      ((∀ host id, Present calls ⟨Globals.fullName name, host⟩ id →
          ⟨Globals.fullName name, id⟩ ∉ e.dispatcher.pending) →
        e.dispatcher.pending.length < e.dispatcher.limit →
          result = .ok () ∧ (∀ telling ∈ told, telling.result = .ok ()) ∧
            ∀ host id, (host, id) ∈ told.map subscriber ↔
              Present calls ⟨Globals.fullName name, host⟩ id) := by
  obtain ⟨told, tells, covers⟩ := tells_of_set valid changed run
  refine ⟨told, tells, covers, ?_, fun fresh room => ?_⟩
  · rw [built] at covers
    exact (Subscriptions.subscribers_after_inOrder calls _).sublist covers.isPrefix.sublist
  · obtain ⟨_, orderly, called⟩ := tells.orderly
    obtain rfl := List.append_cancel_left (orderly.journal.symm.trans journal)
    have fine : ∀ telling ∈ told, telling.result = .ok () := by
      intro telling member
      have listed := covers.isPrefix.subset (List.mem_map_of_mem member)
      rcases called smooth telling member with fine | pending | full
      · exact fine
      · exact absurd pending (fresh _ _ ((mem_subscribers_after built _ _ _).1 listed))
      · exact absurd room (Nat.not_lt.2 full)
    cases result with
    | error error =>
      obtain ⟨before, last, rfl, failed, _⟩ := covers.broken
      rw [fine last (by simp)] at failed
      cases failed
    | ok _ =>
      refine ⟨rfl, fine, fun host id => ?_⟩
      rw [covers.complete.1, mem_subscribers_after built]

/-- What the journal of the household says of the bell being rung. -/
theorem household_rings : ∃ e' events,
    serve (steady (handle 2)) (.set "Bell" (.number .one)) household = some (.ok (), e') ∧
      e'.journal = household.journal ++ events ∧ ∀ event ∈ events, ¬event.isFailure := by
  have answer : (serve (steady (handle 2)) (.set "Bell" (.number .one)) household).map
      (fun ended => (ended.1, ended.2.journal)) = some (.ok (),
        [1, 3, 2].flatMap fun number => [
          .entered ⟨"Signals.Bell", ⟨number⟩⟩ [⟨"Signals.Bell", ⟨number⟩⟩],
          .left ⟨"Signals.Bell", ⟨number⟩⟩ (.ok ()) []]) := rfl
  obtain ⟨⟨result, e'⟩, run, ended⟩ := Option.map_eq_some_iff.1 answer
  obtain ⟨rfl, journal⟩ := Prod.mk.inj ended
  refine ⟨e', _, run, journal, ?_⟩
  simp [Event.isFailure]

theorem household_told_in_order : ∃ e' events,
    serve (steady (handle 2)) (.set "Bell" (.number .one)) household = some (.ok (), e') ∧
      e'.journal = household.journal ++ events ∧ (∀ event ∈ events, ¬event.isFailure) ∧
      ∃ told, TellsInTurn (handle 2) "Signals.Bell"
          { household with globals := household.globals.put "Bell" (.number .one) } told e' ∧
        (told.map subscriber).Pairwise (Subscriptions.Sooner bellCalls "Signals.Bell") ∧
        ∀ host id, (host, id) ∈ told.map subscriber ↔
          Present bellCalls ⟨"Signals.Bell", host⟩ id := by
  obtain ⟨e', events, run, journal, smooth⟩ := household_rings
  obtain ⟨told, tells, _, inOrder, whole⟩ :=
    set_tells_in_order rfl (by decide) (by decide) run journal smooth
  obtain ⟨_, _, everybody⟩ := whole (fun _ _ _ => List.not_mem_nil) (by decide)
  exact ⟨e', events, run, journal, smooth, told, tells, inOrder, everybody⟩

/-- Over several hosts, listeners are not told in the order in which their subscriptions were
made. -/
theorem not_told_by_seniority : ¬ ∀ {e e' : Engine Unit} {calls : List SubscriptionCall}
    {name : String} {n : Fixed} {depth : Nat} {events : List Event} {told : List Telling},
    e.subscriptions = .after calls → Globals.isName name →
    e.globals.get? name ≠ some (.number n) →
    serve (steady (handle depth)) (.set name (.number n)) e = some (.ok (), e') →
    e'.journal = e.journal ++ events → (∀ event ∈ events, ¬event.isFailure) →
    TellsInTurn (handle depth) (Globals.fullName name)
      { e with globals := e.globals.put name (.number n) } told e' →
    (∀ host id, (host, id) ∈ told.map subscriber ↔
      Present calls ⟨Globals.fullName name, host⟩ id) →
    (told.map subscriber).Pairwise fun first second =>
      JoinedBefore calls (⟨Globals.fullName name, first.1⟩, first.2)
        (⟨Globals.fullName name, second.1⟩, second.2) := by
  intro claimed
  obtain ⟨e', events, run, journal, smooth⟩ := household_rings
  have valid : Globals.isName "Bell" := by decide
  have changed : household.globals.get? "Bell" ≠ some (.number .one) := by decide
  obtain ⟨told, tells, covers⟩ := tells_of_set valid changed run
  have inOrder := claimed rfl valid changed run journal smooth tells fun host id => by
    rw [covers.complete.1, mem_subscribers_after rfl]
  have everybody : told.map subscriber = [(upstairs, ⟨1⟩), (upstairs, ⟨3⟩), (downstairs, ⟨2⟩)] :=
    covers.complete.1.trans (by decide)
  rw [everybody] at inOrder
  obtain ⟨m, n, third, second, earlier⟩ :=
    (List.pairwise_cons.1 (List.pairwise_cons.1 inOrder).2).1 _ List.mem_cons_self
  have atEnd : m = 2 := by
    have added := third.added
    rcases m with _ | _ | _ | m <;> simp [bellCalls] at added ⊢
  have inside : n < 3 := second.inside
  have added := second.added
  obtain rfl : n = 2 := by omega
  simp [bellCalls] at added

end Engine

end SignalRules
