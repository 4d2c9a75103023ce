import SignalRules.Proofs.GlobalNames
import SignalRules.Proofs.Notification

/-! # Actual changes

Listeners are to be told of actual changes only. Whoever writes a global signal keeps to this: if
anybody is told, the signal is found to be different from what it was right before. The ticker does
not. It is advanced, and everybody is told, up to a count at which its value has long stopped to
grow.
-/

namespace SignalRules

theorem Fixed.raw_ofInt (n : Nat) : (Fixed.ofInt n).raw = min (n * 100) 2147483647 := by
  unfold ofInt clamp scale
  split
  · split
    · simp only
      omega
    · simp only
      omega
  · omega

namespace Ticker

theorem count_advance (t : Ticker) : t.advance.count = min (t.count + 1) 2147483647 := by
  have := t.count_le
  unfold advance
  split
  · simp only
    omega
  · omega

/-- The value stops to grow at the first count that is too large for a number, long before the count
does. -/
theorem value_advance_eq_iff (t : Ticker) : t.advance.value = t.value ↔ 21474837 ≤ t.count := by
  have := t.count_le
  have count := t.count_advance
  have before := Fixed.raw_ofInt t.count
  have after := Fixed.raw_ofInt t.advance.count
  constructor
  · intro same
    have raw := congrArg Fixed.raw (Value.number.inj same)
    omega
  · intro late
    refine congrArg Value.number (Fixed.ext_raw ?_)
    omega

end Ticker

namespace Engine

variable {σ : Type}

/-! ## What is announced -/

section

variable {e e' : Engine σ} {signal : String} {result : Except ScriptError Unit}

theorem announceEverywhere_of_nobody (nobody : e.subscriptions.subscribers signal = [])
    (handler : Handler σ) : announceEverywhere handler signal e = some (.ok (), e) := by
  rw [announceEverywhere, Run.get_bind_apply]
  unfold Subscriptions.subscribers at nobody
  generalize e.subscriptions.hosts signal = hosts at nobody ⊢
  induction hosts with
  | nil => rfl
  | cons host hosts ih =>
    rw [List.flatMap_cons, List.append_eq_nil_iff, List.map_eq_nil_iff] at nobody
    have silent : announce handler ⟨signal, host⟩ e = some (.ok (), e) := by
      rw [announce, Run.get_bind_apply, nobody.1]
      rfl
    rw [forEach, Run.bind_apply, silent]
    exact ih nobody.2

/-- An announcement tells listeners of its signal and does nothing else, even if subscriptions
change meanwhile. -/
theorem told_of_announceEverywhere {handler : Handler σ}
    (run : announceEverywhere handler signal e = some (result, e')) :
    ∃ told, TellsInTurn handler signal e told e' ∧
      (e.subscriptions.subscribers signal ≠ [] → told ≠ []) := by
  rw [announceEverywhere, Run.get_bind_apply] at run
  unfold Subscriptions.subscribers
  generalize e.subscriptions.hosts signal = hosts at run ⊢
  induction hosts generalizing e with
  | nil =>
    cases run
    exact ⟨[], .nobody _, fun somebody => absurd rfl somebody⟩
  | cons host hosts ih =>
    obtain ⟨answer, e₁, announced, run⟩ := Run.bind_eq_some_iff.1 run
    obtain ⟨told, tells, covers⟩ := told_of_announce announced
    rw [List.flatMap_cons]
    generalize (e.subscriptions.listeners ⟨signal, host⟩).map (host, ·) = here at covers ⊢
    cases covers with
    | all =>
      -- nobody listens on this host, and the engine is as it was
      cases tells
      exact ih run
    | stop =>
      cases run
      exact ⟨_, tells, fun _ => List.cons_ne_nil _ _⟩
    | next _ =>
      cases answer with
      | error _ =>
        cases run
        exact ⟨_, tells, fun _ => List.cons_ne_nil _ _⟩
      | ok _ =>
        obtain ⟨rest, tells', _⟩ := ih run
        exact ⟨_, tells.append tells', fun _ => List.cons_ne_nil _ _⟩

/-- To announce something to somebody takes callbacks. -/
theorem announceEverywhere_of_somebody (somebody : e.subscriptions.subscribers signal ≠ []) :
    announceEverywhere (fun _ => failure) signal e = none := by
  cases run : announceEverywhere (fun _ => failure) signal e with
  | none => rfl
  | some answer =>
    obtain ⟨told, tells, nonempty⟩ := told_of_announceEverywhere run
    cases tells with
    | nobody _ => exact absurd rfl (nonempty somebody)
    | next scheduled _ => cases scheduled

end

/-! ## Writes -/

/-- A call that writes one of the engine's own signals. -/
inductive Write where
  /-- A request to write a global signal, by its local name. -/
  | set (name : String) (value : Value)
  /-- An action that is executed with this name and this value, which are not checked any more. -/
  | act (host : HostId) (name : String) (value : Value)
  /-- A request to advance the ticker. -/
  | advance

namespace Write

def run (handler : Handler σ) : Write → Run σ (Outcome Unit)
  | set name value => return .ofExcept (← serve handler (.set name value))
  | act host name value => Engine.act handler ⟨Globals.setAction, host⟩ [.string name, value]
  | advance => return .ofExcept (← serve handler .advance)

def signal : Write → String
  | set name _ => Globals.fullName name
  | act _ name _ => Globals.fullName name
  | advance => Diagnostics.tickerSignal

/-- The call is let through. -/
def Passes : Write → Prop
  | set name value => Globals.isName name ∧ value.type = .number
  | _ => True

instance : DecidablePred Passes
  | set _ _ => inferInstanceAs (Decidable (_ ∧ _))
  | act _ _ _ => inferInstanceAs (Decidable True)
  | advance => inferInstanceAs (Decidable True)

/-- What is stored under a local name. -/
def entry? : Write → Option (String × Value)
  | set name value => some (name, value)
  | act _ name value => some (name, value)
  | advance => none

/-- The engine right after it was written to, before anybody is told. -/
def after (e : Engine σ) (write : Write) : Engine σ :=
  if write.Passes then
    match write.entry? with
    | some (name, value) => { e with globals := e.globals.put name value }
    | none => { e with ticker := e.ticker.advance }
  else e

/-- The call does not write what is stored already. -/
def IsNews (write : Write) (e : Engine σ) : Prop :=
  write.Passes ∧ ∀ name value, write.entry? = some (name, value) → e.globals.get? name ≠ some value

/-- The call cannot be completed without a callback. -/
def Schedules (write : Write) (e : Engine σ) : Prop :=
  write.run (fun _ => failure) e = none

variable {e : Engine σ} {write : Write}

theorem provider_ticker (e : Engine σ) : e.provider Diagnostics.tickerSignal = .ok .diagnostics := by
  have key : providerName? Diagnostics.tickerSignal = some Diagnostics.providerName := by decide
  have other : Diagnostics.providerName ≠ Globals.providerName := by decide
  simp [provider, key, other]

/-- A call that is refused does nothing. -/
theorem run_of_not_passes (refused : ¬write.Passes) :
    ∃ error, ∀ handler : Handler σ, write.run handler e = some (.failed error, e) := by
  cases write with
  | act _ _ _ | advance => exact absurd trivial refused
  | set name value =>
    by_cases proper : Globals.isName name
    · cases value with
      | number n => exact absurd ⟨proper, rfl⟩ refused
      | string text =>
        refine ⟨.evaluation (.numberExpected text), fun handler => ?_⟩
        rw [run, serve, if_pos proper]
        rfl
    · refine ⟨.evaluation (.globalName name), fun handler => ?_⟩
      rw [run, serve, if_neg proper]
      rfl

theorem run_of_entry {name : String} {value : Value} (passes : write.Passes)
    (entry : write.entry? = some (name, value)) (handler : Handler σ) :
    write.run handler e =
      (do return .ofExcept (← setGlobal handler name value) : Run σ (Outcome Unit)) e := by
  cases write with
  | advance => cases entry
  | set name value =>
    cases entry
    cases value with
    | string text => cases passes.2
    | number n =>
      rw [run, Run.bind_apply, serve_set passes.1, Run.bind_apply]
  | act host name value =>
    cases entry
    have known : e.provider Globals.setAction = .ok .globals := provider_fullName e "Set"
    rw [run, Engine.act, Run.get_bind_apply]
    simp only [known, if_true, Value.asString]

theorem setGlobal_eq (handler : Handler σ) (name : String) (value : Value) (e : Engine σ) :
    setGlobal handler name value e =
      (if e.globals.get? name = some value then pure (.ok ())
        else announceEverywhere handler (Globals.fullName name) :
        Run σ (Except ScriptError Unit)) { e with globals := e.globals.put name value } := by
  rw [setGlobal, Run.get_bind_apply, Run.modify_bind_apply]

theorem after_of_entry {name : String} {value : Value} (passes : write.Passes)
    (entry : write.entry? = some (name, value)) :
    write.after e = { e with globals := e.globals.put name value } := by
  rw [after, if_pos passes, entry]

theorem signal_of_entry {name : String} {value : Value} (entry : write.entry? = some (name, value)) :
    write.signal = Globals.fullName name := by
  cases write <;> cases entry <;> rfl

theorem eq_advance_of_entry (none : write.entry? = none) : write = .advance := by
  cases write with
  | advance => rfl
  | set _ _ | act _ _ _ => cases none

/-- What is no news comes to the same whatever becomes of callbacks. -/
theorem run_of_not_isNews (old : ¬write.IsNews e) :
    ∃ outcome, ∀ handler : Handler σ, write.run handler e = some (outcome, write.after e) := by
  by_cases passes : write.Passes
  · have stored : ∃ name value, write.entry? = some (name, value) ∧
        e.globals.get? name = some value := by
      simpa [IsNews, passes] using old
    obtain ⟨name, value, entry, stored⟩ := stored
    refine ⟨.ready (), fun handler => ?_⟩
    rw [run_of_entry passes entry, Run.bind_apply, setGlobal_eq, if_pos stored,
      after_of_entry passes entry]
    rfl
  · obtain ⟨error, same⟩ := run_of_not_passes (e := e) passes
    refine ⟨.failed error, fun handler => ?_⟩
    rw [same handler, after, if_neg passes]

/-- News is announced right after it was written. -/
theorem run_of_isNews (news : write.IsNews e) (handler : Handler σ) :
    write.run handler e =
      (do return .ofExcept (← announceEverywhere handler write.signal) : Run σ (Outcome Unit))
        (write.after e) := by
  obtain ⟨passes, changed⟩ := news
  cases entry : write.entry? with
  | none =>
    obtain rfl := eq_advance_of_entry entry
    rfl
  | some pair =>
    obtain ⟨name, value⟩ := pair
    rw [run_of_entry passes entry, Run.bind_apply, setGlobal_eq, if_neg (changed name value entry),
      after_of_entry passes entry, signal_of_entry entry, Run.bind_apply]

theorem subscriptions_after (write : Write) (e : Engine σ) :
    (write.after e).subscriptions = e.subscriptions := by
  unfold after
  split
  · split <;> rfl
  · rfl

theorem schedules_iff : write.Schedules e ↔
    write.IsNews e ∧ e.subscriptions.subscribers write.signal ≠ [] := by
  unfold Schedules
  by_cases news : write.IsNews e
  · rw [run_of_isNews news, Run.bind_apply, ← subscriptions_after write e]
    by_cases nobody : (write.after e).subscriptions.subscribers write.signal = []
    · rw [announceEverywhere_of_nobody nobody]
      simp [nobody]
    · rw [announceEverywhere_of_somebody nobody]
      simp [news, nobody]
  · obtain ⟨outcome, same⟩ := run_of_not_isNews news
    simp [same, news]

theorem run_of_not_schedules (silent : ¬write.Schedules e) :
    ∃ outcome, ∀ handler : Handler σ, write.run handler e = some (outcome, write.after e) := by
  by_cases news : write.IsNews e
  · have nobody : (write.after e).subscriptions.subscribers write.signal = [] := by
      rw [subscriptions_after]
      simpa [schedules_iff, news] using silent
    refine ⟨.ready (), fun handler => ?_⟩
    rw [run_of_isNews news, Run.bind_apply, announceEverywhere_of_nobody nobody]
    rfl
  · exact run_of_not_isNews news

/-- The listeners of the signal are told and nothing else is done, and somebody is told if the write
schedules anything. -/
theorem told_of_run {handler : Handler σ} {outcome : Outcome Unit} {e' : Engine σ}
    (ran : write.run handler e = some (outcome, e')) :
    ∃ told, TellsInTurn handler write.signal (write.after e) told e' ∧
      (told ≠ [] ↔ write.Schedules e) := by
  by_cases schedules : write.Schedules e
  · obtain ⟨news, somebody⟩ := schedules_iff.1 schedules
    rw [run_of_isNews news, Run.bind_eq_some_iff] at ran
    obtain ⟨result, e₁, announced, finish⟩ := ran
    cases finish
    obtain ⟨told, tells, nonempty⟩ := told_of_announceEverywhere announced
    rw [subscriptions_after] at nonempty
    exact ⟨told, tells, iff_of_true (nonempty somebody) schedules⟩
  · obtain ⟨_, same⟩ := run_of_not_schedules schedules
    cases (same handler).symm.trans ran
    exact ⟨[], .nobody _, iff_of_false (not_not_intro rfl) schedules⟩

theorem isNews_advance (e : Engine σ) : Write.advance.IsNews e := by
  refine ⟨trivial, fun name value none => ?_⟩
  cases none

/-! ## What the signal is found to be -/

theorem outcome_ticker (e : Engine σ) (host : HostId) :
    e.outcome ⟨Diagnostics.tickerSignal, host⟩ = .ready e.ticker.value := by
  simp [outcome, signalOutcome, provider_ticker, Diagnostics.checkSignal]

theorem outcome_fullName {name : String} (proper : Globals.isName name) (e : Engine σ)
    (host : HostId) : e.outcome ⟨Globals.fullName name, host⟩ = e.globals.outcome name := by
  simp [outcome, signalOutcome, provider_fullName, localName_fullName, proper]

theorem checkSource_fullName_iff {name : String} {host : HostId} :
    e.checkSource ⟨Globals.fullName name, host⟩ = .ok () ↔ Globals.isName name := by
  rw [checkSource, provider_fullName]
  simp only [localName_fullName]
  by_cases proper : Globals.isName name <;> simp [proper, Except.map]

/-- News makes a difference, but for ticks that come late. -/
theorem outcome_after_eq_iff (news : write.IsNews e) {host : HostId}
    (source : e.checkSource ⟨write.signal, host⟩ = .ok ()) :
    (write.after e).outcome ⟨write.signal, host⟩ = e.outcome ⟨write.signal, host⟩ ↔
      write = .advance ∧ 21474837 ≤ e.ticker.count := by
  obtain ⟨passes, changed⟩ := news
  cases entry : write.entry? with
  | none =>
    obtain rfl := eq_advance_of_entry entry
    have advanced : (after e .advance).ticker = e.ticker.advance := rfl
    rw [signal, outcome_ticker, outcome_ticker, advanced, Outcome.ready.injEq,
      Ticker.value_advance_eq_iff]
    simp
  | some pair =>
    obtain ⟨name, value⟩ := pair
    have notTicker : write ≠ .advance := by
      rintro rfl
      cases entry
    rw [signal_of_entry entry] at source ⊢
    have proper := checkSource_fullName_iff.1 source
    rw [outcome_fullName proper, outcome_fullName proper, after_of_entry passes entry]
    simp only [Globals.outcome, Globals.get?_put, if_true, notTicker, false_and, iff_false]
    have differs := changed name value entry
    cases stored : e.globals.get? name with
    | none => simp
    | some old =>
      rw [stored] at differs
      simpa [eq_comm] using differs

end Write

/-- A write of one of the engine's own signals is followed by callbacks of its listeners and nothing
else. It is if the write is let through, does not store what is stored already, and there are
listeners; then the signal is found to be different right after the write, unless the ticker is
advanced from a count of 21474837 or more, which never makes a difference. This is so in every state
and whatever becomes of the callbacks, so that it is so for the writes that callbacks make in turn. -/
theorem announced_as_changed (write : Write) (e : Engine σ) :
    (write.Schedules e ↔ write.IsNews e ∧ e.subscriptions.subscribers write.signal ≠ []) ∧
    (¬write.Schedules e → ∃ outcome, ∀ handler : Handler σ,
      write.run handler e = some (outcome, write.after e)) ∧
    (∀ (handler : Handler σ) outcome e', write.run handler e = some (outcome, e') →
      ∃ told, TellsInTurn handler write.signal (write.after e) told e' ∧
        (told ≠ [] ↔ write.Schedules e)) ∧
    ∀ host, e.checkSource ⟨write.signal, host⟩ = .ok () → write.Schedules e →
      ((write.after e).outcome ⟨write.signal, host⟩ = e.outcome ⟨write.signal, host⟩ ↔
        write = .advance ∧ 21474837 ≤ e.ticker.count) :=
  ⟨Write.schedules_iff, Write.run_of_not_schedules, fun _ _ _ => Write.told_of_run,
    fun _ source schedules => Write.outcome_after_eq_iff (Write.schedules_iff.1 schedules).1 source⟩

/-- Somebody listens to the ticker and to the water. -/
def attendance : Subscriptions :=
  .add (.add {} ⟨Diagnostics.tickerSignal, ⟨1⟩⟩ ⟨1⟩) ⟨Globals.fullName "Water", ⟨1⟩⟩ ⟨1⟩

def attended (ticker : Ticker) : Engine Unit :=
  { create {} () with
    ticker
    subscriptions := attendance
    listeners := [.external "attendant" fun _ => .finish (.ok ())] }

theorem hears_ticker : attendance.subscribers Diagnostics.tickerSignal ≠ [] := by decide

theorem hears_water : attendance.subscribers (Globals.fullName "Water") ≠ [] := by decide

theorem hears_no_fire : attendance.subscribers (Globals.fullName "Fire") = [] := by decide

/-- The water is seen to change, a fire is not told of, and a late tick is told of and not seen. -/
theorem announced_to_attendant :
    let late := attended ⟨21474837, by omega⟩
    let water : Write := .set "Water" (.number .one)
    let fire : Write := .act ⟨1⟩ "Fire" (.number .one)
    (late.checkSource ⟨water.signal, ⟨1⟩⟩ = .ok () ∧ water.Schedules late ∧
      (water.after late).outcome ⟨water.signal, ⟨1⟩⟩ ≠ late.outcome ⟨water.signal, ⟨1⟩⟩) ∧
    (∃ outcome e', water.run (handle 1) late = some (outcome, e') ∧
      ∃ told, TellsInTurn (handle 1) water.signal (water.after late) told e' ∧
        (told ≠ [] ↔ water.Schedules late)) ∧
    (¬fire.Schedules late ∧ ∃ outcome, ∀ handler, fire.run handler late =
      some (outcome, fire.after late)) ∧
    late.checkSource ⟨Write.advance.signal, ⟨1⟩⟩ = .ok () ∧ Write.advance.Schedules late ∧
      (Write.advance.after late).outcome ⟨Write.advance.signal, ⟨1⟩⟩ =
        late.outcome ⟨Write.advance.signal, ⟨1⟩⟩ := by
  intro late water fire
  have source : late.checkSource ⟨water.signal, ⟨1⟩⟩ = .ok () :=
    Write.checkSource_fullName_iff.2 (by decide)
  have news : water.IsNews late := by
    refine ⟨by decide, ?_⟩
    rintro _ _ ⟨⟩
    exact nofun
  have waterScheduled : water.Schedules late :=
    (announced_as_changed water late).1.2 ⟨news, hears_water⟩
  have tickScheduled : Write.advance.Schedules late :=
    (announced_as_changed .advance late).1.2 ⟨Write.isNews_advance late, hears_ticker⟩
  have fireSilent : ¬fire.Schedules late := by
    rw [(announced_as_changed fire late).1]
    rintro ⟨-, somebody⟩
    exact somebody hears_no_fire
  refine ⟨⟨source, waterScheduled, ?_⟩, ?_, ⟨fireSilent, ?_⟩, rfl, tickScheduled, ?_⟩
  · rw [Ne, (announced_as_changed water late).2.2.2 ⟨1⟩ source waterScheduled]
    exact nofun
  · obtain ⟨e', ran⟩ : ∃ e', water.run (handle 1) late = some (.ready (), e') := ⟨_, rfl⟩
    exact ⟨_, e', ran, (announced_as_changed water late).2.2.1 _ _ _ ran⟩
  · exact (announced_as_changed fire late).2.1 fireSilent
  · exact ((announced_as_changed .advance late).2.2.2 ⟨1⟩ rfl tickScheduled).2 ⟨rfl, Nat.le_refl _⟩

/-! ## Late ticks -/

theorem reachable_ticker (n : Nat) (fits : n ≤ 2147483647) :
    ∃ ticker : Ticker, ticker.count = n ∧ Reachable { create {} () with ticker } := by
  induction n with
  | zero => exact ⟨{}, rfl, .create {} ()⟩
  | succ n ih =>
    obtain ⟨ticker, rfl, reachable⟩ := ih (Nat.le_of_succ_le fits)
    have count := ticker.count_advance
    refine ⟨ticker.advance, by omega, ?_⟩
    have ran : runProgram (handle 1) (.ask .advance) { create {} () with ticker } =
        some (.ok (), { create {} () with ticker := ticker.advance }) := rfl
    exact reachable.program ran

theorem reachable_attended {ticker : Ticker}
    (reachable : Reachable { create {} () with ticker }) : Reachable (attended ticker) := by
  have ran : runProgram (handle 1)
      (.request (.subscribe ⟨Diagnostics.tickerSignal, ⟨1⟩⟩ ⟨1⟩) fun _ =>
        .ask (.subscribe ⟨Globals.fullName "Water", ⟨1⟩⟩ ⟨1⟩))
      ({ create {} () with ticker }.addListener
        (.external "attendant" fun _ => .finish (.ok ()))).2 =
      some (.ok (), attended ticker) := rfl
  exact (reachable.listen _).program ran

/-- The attendant is told of ticks from which the ticker is seen not to change. -/
theorem not_only_changes_announced : ¬ ∀ (e : Engine Unit), Reachable e → ∀ (write : Write) host,
    e.checkSource ⟨write.signal, host⟩ = .ok () → write.Schedules e →
      (write.after e).outcome ⟨write.signal, host⟩ ≠ e.outcome ⟨write.signal, host⟩ := by
  intro claimed
  obtain ⟨ticker, late, reachable⟩ := reachable_ticker 21474837 (by omega)
  have news := Write.isNews_advance (attended ticker)
  have source : (attended ticker).checkSource ⟨Write.advance.signal, ⟨1⟩⟩ = .ok () := rfl
  have schedules : Write.advance.Schedules (attended ticker) :=
    Write.schedules_iff.2 ⟨news, hears_ticker⟩
  refine claimed _ (reachable_attended reachable) .advance ⟨1⟩ source schedules ?_
  exact (Write.outcome_after_eq_iff news source).2 ⟨rfl, Nat.le_of_eq late.symm⟩

end Engine

end SignalRules
