import Mathlib.Algebra.BigOperators.Group.List.Basic
import Mathlib.Algebra.GroupWithZero.Nat
import Mathlib.Data.Finset.Card
import SignalRules.Proofs.Failures
import SignalRules.Proofs.Lifetimes

/-! # What a tick counts

A tick counts the checks that end in an error. Such an error breaks the rule that is checked, or a
listener failed meanwhile, and the failure was counted. Where devices call nobody back, each of
these checks breaks one rule, of whatever book, or all rules of a chain that came to a cycle; no
rule breaks in two of them, and none breaks otherwise. So the count is that of the rules of the book
that broke, unless a cycle came up or a rule of another book broke.
-/

namespace SignalRules

namespace Engine

variable {σ : Type}

instance (e : Engine σ) (id : ListenerId) : Decidable (e.IsActive id) :=
  decidable_of_iff ((e.rule? id).any fun rule => rule.state = .active) <| by
    simp [IsActive, Option.any_eq_true]

instance (e : Engine σ) (id : ListenerId) : Decidable (e.HasFailed id) :=
  decidable_of_iff ((e.rule? id).any fun rule => rule.state = .failed) <| by
    simp [HasFailed, Option.any_eq_true]

/-- Of these rules, those that were active and are broken. -/
def broken (rules : Finset ListenerId) (e e' : Engine σ) : Finset ListenerId :=
  rules.filter fun id => e.IsActive id ∧ e'.HasFailed id

theorem mem_broken {rules : Finset ListenerId} {e e' : Engine σ} {id : ListenerId} :
    id ∈ broken rules e e' ↔ id ∈ rules ∧ e.IsActive id ∧ e'.HasFailed id :=
  Finset.mem_filter

/-! ## One check after the other -/

/-- A check that has ended in an error. -/
structure FailedCheck (σ : Type) where
  id : ListenerId
  error : ScriptError
  before : Engine σ
  after : Engine σ

/-- The rules are checked in turn, and these checks fail. -/
inductive Checks (handler : Handler σ) :
    List ListenerId → Engine σ → List (FailedCheck σ) → Engine σ → Prop where
  | nil {e : Engine σ} : Checks handler [] e [] e
  | passed {id : ListenerId} {ids : List ListenerId} {e e₁ e' : Engine σ}
    {failed : List (FailedCheck σ)} (run : check handler id e = some (.ok (), e₁))
    (rest : Checks handler ids e₁ failed e') : Checks handler (id :: ids) e failed e'
  | failed {id : ListenerId} {ids : List ListenerId} {e e₁ e' : Engine σ} {error : ScriptError}
    {failed : List (FailedCheck σ)} (run : check handler id e = some (.error error, e₁))
    (rest : Checks handler ids e₁ failed e') :
    Checks handler (id :: ids) e (⟨id, error, e, e₁⟩ :: failed) e'

theorem checks_of_tick {handler : Handler σ} {ids : List ListenerId} {e e' : Engine σ} {count : Nat}
    (run : Book.tick.go handler ids e = some (count, e')) :
    ∃ failed, Checks handler ids e failed e' ∧ count = failed.length := by
  induction ids generalizing e count with
  | nil =>
    cases run
    exact ⟨[], .nil, rfl⟩
  | cons id ids ih =>
    rw [Book.tick.go] at run
    obtain ⟨result, e₁, checked, rest⟩ := Run.bind_eq_some_iff.1 run
    cases result with
    | ok _ =>
      obtain ⟨failed, checks, rfl⟩ := ih rest
      exact ⟨failed, .passed checked checks, rfl⟩
    | error error =>
      obtain ⟨_, _, rest, finish⟩ := Run.bind_eq_some_iff.1 rest
      cases finish
      obtain ⟨failed, checks, rfl⟩ := ih rest
      exact ⟨_, .failed checked checks, rfl⟩

/-! ## What a failed check says -/

/-- A rule that was active has not been checked in full: the error has broken it, or a failure was
counted meanwhile. -/
structure FailedCheck.Explained (c : FailedCheck σ) : Prop where
  active : c.before.IsActive c.id
  cause : c.after.FailedBy c.id c.error ∨
    c.before.dispatcher.failures < c.after.dispatcher.failures

theorem failures_le_of_performed {e e' : Engine σ} {depth : Nat} {call : Call}
    {outcome : Outcome Expr.Completion}
    (run : performCall (handle depth) call e = some (outcome, e')) :
    e.dispatcher.failures ≤ e'.dispatcher.failures := by
  obtain ⟨_, records⟩ :=
    Records.closed.performCall (Records.closed.handle depth) call _ _ _ run
  rw [records.failures]
  exact Nat.le_add_right _ _

theorem check_explained {e e' : Engine σ} {depth : Nat} {id : ListenerId} {error : ScriptError}
    (run : check (handle depth) id e = some (.error error, e')) :
    FailedCheck.Explained ⟨id, error, e, e'⟩ := by
  rcases check_cases run with ⟨_, impossible, _⟩ | ⟨rule, truth, e₁, judged, rest⟩
  · cases impossible
  refine ⟨⟨rule, judged.found, judged.active⟩, ?_⟩
  cases truth with
  | interrupted _ => cases rest.1
  | failed cause =>
    obtain ⟨same, rfl⟩ := rest
    cases same
    exact .inl ⟨_, rule?_modifyRule_self judged.still_found _, rfl, rfl⟩
  | ready holds =>
    by_cases fires : (holds && !rule.held) = true
    · simp only [fires, if_true] at rest
      obtain ⟨outcome, e₂, performed, concluded⟩ := rest
      obtain ⟨cause, rfl⟩ := failed_of_concluded concluded
      have held : (e₁.hold id holds).rule? id = some { rule with held := holds } :=
        rule?_modifyRule_self judged.still_found _
      obtain ⟨_, found, _⟩ :=
        keeps_closed.performCall (keeps_closed.handle depth) _ _ _ _ performed _ _ held
      have noted : (e₂.note (.fired id (.failed cause))).rule? id = some _ := found
      rcases conclude_failed concluded with ⟨counted, _, rfl⟩ | ⟨_, same, rfl⟩
      · have le := failures_le_of_performed performed
        rw [judged.dispatcher (.refl _)] at le
        exact .inr (Nat.lt_of_le_of_ne le (Ne.symm counted))
      · cases same
        exact .inl ⟨_, rule?_modifyRule_self noted _, rfl, rfl⟩
    · simp only [Bool.eq_false_iff.2 fires, Bool.false_eq_true, if_false] at rest
      cases rest.1

theorem Checks.explained {depth : Nat} {ids : List ListenerId} {e e' : Engine σ}
    {failed : List (FailedCheck σ)} (checks : Checks (handle depth) ids e failed e') :
    ∀ c ∈ failed, c.Explained := by
  induction checks with
  | nil => exact fun _ member => absurd member List.not_mem_nil
  | passed _ _ ih => exact ih
  | failed run _ ih => exact List.forall_mem_cons.2 ⟨check_explained run, ih⟩

/-! ## What a failed check breaks -/

/-- The check breaks a single rule, or, if it comes to a cycle, the rule that is checked and all
rules whose callbacks are pending then. -/
inductive FailedCheck.Breaks (c : FailedCheck σ) : Prop where
  | one (culprit : ListenerId) (noCycle : ¬FindsCycle c.before c.after)
    (verdict : Verdict c.id c.error c.before c.after culprit)
  | chain (events : List Event) (queue : List Callback) (callback : Callback)
    (journal : c.after.journal = c.before.journal ++ events)
    (cycle : loops [] events = [(queue, callback)])
    (breakage : Breakage [c.id] c.before (.error c.error) c.after queue callback)

theorem FindsCycle.of_loops {e e' : Engine σ} {events : List Event} {queue : List Callback}
    (journal : e'.journal = e.journal ++ events) (cycle : loops queue events ≠ []) :
    FindsCycle e e' := by
  refine ⟨events, journal, ?_⟩
  by_contra nothing
  simp only [not_exists, not_and, not_not] at nothing
  exact cycle (occurrences_of_none nothing queue)

/-- What is broken in the course of a task was active before. -/
theorem Framed.breaksDown_iff {e e' : Engine σ} (framed : Framed e e') {id : ListenerId} :
    BreaksDown e e' id ↔ e.IsActive id ∧ e'.HasFailed id := by
  constructor
  · rintro ⟨sound, rule', found', failed⟩
    obtain ⟨rule, found, follows⟩ := framed.was_found found'
    by_cases active : rule.state = .active
    · exact ⟨⟨rule, found, active⟩, rule', found', failed⟩
    · rw [follows.resting active] at failed
      exact absurd ⟨rule, found, failed⟩ sound
  · rintro ⟨⟨rule, found, active⟩, failed⟩
    exact ⟨not_hasFailed_of_state found (by rw [active]; exact nofun), failed⟩

section

variable {e e₁ e' : Engine σ} {depth : Nat} {id : ListenerId} {ids : List ListenerId}

theorem Hosted.breaks (hosted : Hosted e) {error : ScriptError}
    (run : check (handle depth) id e = some (.error error, e')) :
    FailedCheck.Breaks ⟨id, error, e, e'⟩ := by
  have cascade := (handle_follows depth).check hosted.among run
  by_cases found : FindsCycle e e'
  · obtain ⟨events, added, callback, journal, looped⟩ := cascade.looped_of_findsCycle found
    have shown := looped.shown
    rw [hosted.idle, List.nil_append] at shown
    exact .chain events added callback journal shown (looped.breakage hosted.idle)
  · rcases cascade.fate_or_findsCycle (.inl hosted.idle) rfl with fate | found'
    · obtain ⟨culprit, verdict⟩ := fate.verdict
      exact .one culprit found verdict
    · exact absurd found' found

/-- What breaks in two parts of a run breaks in one of them. -/
theorem broken_trans (first : Framed e e₁) (rest : Framed e₁ e') (rules : Finset ListenerId) :
    (broken rules e e').card = (broken rules e e₁).card + (broken rules e₁ e').card := by
  have apart : Disjoint (broken rules e e₁) (broken rules e₁ e') := by
    refine Finset.disjoint_left.2 fun id early late => ?_
    obtain ⟨_, _, failed⟩ := mem_broken.1 early
    exact (rest.breaksDown_iff.2 (mem_broken.1 late).2).1 failed
  rw [← Finset.card_union_of_disjoint apart]
  congr 1
  ext id
  rw [Finset.mem_union, mem_broken, mem_broken, mem_broken]
  constructor
  · rintro ⟨member, active, failed⟩
    by_cases early : e₁.HasFailed id
    · exact .inl ⟨member, active, early⟩
    · exact .inr ⟨member, rest.breaksDown_iff.1 ⟨early, failed⟩⟩
  · rintro (⟨member, active, failed⟩ | ⟨member, active, failed⟩)
    · exact ⟨member, active, (Preserves.of_framed rest).hasFailed failed⟩
    · exact ⟨member, first.was_active active, failed⟩

theorem broken_eq_empty {rules : Finset ListenerId} (framed : Framed e e')
    (unbroken : ∀ id, e'.HasFailed id ↔ e.HasFailed id) : broken rules e e' = ∅ := by
  refine Finset.eq_empty_of_forall_notMem fun id member => ?_
  obtain ⟨sound, failed⟩ := framed.breaksDown_iff.2 (mem_broken.1 member).2
  exact sound ((unbroken id).1 failed)

end

/-- The second engine comes of the first in the course of cascades. -/
structure Continues (e e' : Engine σ) : Prop where
  framed : Framed e e'
  grown : e.journal <+: e'.journal

theorem Continues.refl (e : Engine σ) : Continues e e :=
  ⟨.refl e, List.prefix_refl _⟩

theorem Continues.trans {a b c : Engine σ} (ab : Continues a b) (bc : Continues b c) :
    Continues a c :=
  ⟨ab.framed.trans bc.framed, ab.grown.trans bc.grown⟩

theorem Cascade.continues {task : Task} {e e' : Engine σ} {result : Except ScriptError Unit}
    (cascade : Cascade task e result e') : Continues e e' :=
  ⟨cascade.framed, cascade.grown⟩

/-- The check is a part of the run from the one engine to the other. -/
structure FailedCheck.Within (c : FailedCheck σ) (e e' : Engine σ) : Prop where
  begun : Continues e c.before
  ran : Continues c.before c.after
  ended : Continues c.after e'

section

variable {e e₁ e' : Engine σ} {depth : Nat} {id : ListenerId} {ids : List ListenerId}
  {rules : Finset ListenerId} {failed : List (FailedCheck σ)}

theorem Hosted.checked (hosted : Hosted e) {result : Except ScriptError Unit}
    (run : check (handle depth) id e = some (result, e')) :
    Hosted e' ∧ Cascade (.check id) e result e' := by
  have served : handle (depth + 1) (.check id) e = some (result, e') := run
  exact ⟨hosted.handled served, (handle_follows depth).check hosted.among run⟩

theorem Checks.within (checks : Checks (handle depth) ids e failed e') (hosted : Hosted e) :
    Continues e e' ∧ ∀ c ∈ failed, c.Within e e' := by
  induction checks with
  | nil => exact ⟨.refl _, fun _ member => absurd member List.not_mem_nil⟩
  | passed run _ ih =>
    obtain ⟨next, cascade⟩ := hosted.checked run
    obtain ⟨rest, within⟩ := ih next
    refine ⟨cascade.continues.trans rest, fun c member => ?_⟩
    obtain ⟨begun, ran, ended⟩ := within c member
    exact ⟨cascade.continues.trans begun, ran, ended⟩
  | failed run _ ih =>
    obtain ⟨next, cascade⟩ := hosted.checked run
    obtain ⟨rest, within⟩ := ih next
    refine ⟨cascade.continues.trans rest, List.forall_mem_cons.2 ⟨?_, fun c member => ?_⟩⟩
    · exact ⟨.refl _, cascade.continues, rest⟩
    · obtain ⟨begun, ran, ended⟩ := within c member
      exact ⟨cascade.continues.trans begun, ran, ended⟩

theorem Checks.breaks (checks : Checks (handle depth) ids e failed e') (hosted : Hosted e) :
    ∀ c ∈ failed, c.Breaks := by
  induction checks with
  | nil => exact fun _ member => absurd member List.not_mem_nil
  | passed run _ ih => exact ih (hosted.checked run).1
  | failed run _ ih => exact List.forall_mem_cons.2 ⟨hosted.breaks run, ih (hosted.checked run).1⟩

/-- A check that does not fail breaks no rule, and each rule breaks once at most. -/
theorem Checks.card_broken (checks : Checks (handle depth) ids e failed e') (hosted : Hosted e)
    (rules : Finset ListenerId) : (broken rules e e').card =
      (failed.map fun c => (broken rules c.before c.after).card).sum := by
  induction checks with
  | nil =>
    rw [broken_eq_empty (.refl _) fun _ => .rfl]
    rfl
  | passed run rest ih =>
    obtain ⟨next, cascade⟩ := hosted.checked run
    rw [broken_trans cascade.framed (rest.within next).1.framed,
      broken_eq_empty cascade.framed cascade.uneventful.unbroken, Finset.card_empty, Nat.zero_add,
      ih next]
  | failed run rest ih =>
    obtain ⟨next, cascade⟩ := hosted.checked run
    rw [broken_trans cascade.framed (rest.within next).1.framed, ih next, List.map_cons,
      List.sum_cons]

end

namespace FailedCheck

variable {c : FailedCheck σ} {e e' : Engine σ} {rules : Finset ListenerId}

theorem Breaks.card_pos (breaks : c.Breaks) (within : c.Within e e')
    (all : ∀ id, c.before.IsActive id → c.after.HasFailed id → id ∈ rules) :
    0 < (broken rules c.before c.after).card := by
  obtain ⟨id, active, failed⟩ : ∃ id, c.before.IsActive id ∧ c.after.HasFailed id := by
    cases breaks with
    | one culprit _ verdict => exact ⟨culprit, (verdict.alone culprit).2 rfl⟩
    | chain _ _ _ _ _ breakage =>
      have member : c.id ∈ [c.id] := List.mem_singleton_self _
      exact ⟨c.id, within.ran.framed.breaksDown_iff.1 ((breakage.broken c.id).2 (.inr member))⟩
  exact Finset.card_pos.2 ⟨id, mem_broken.2 ⟨all id active failed, active, failed⟩⟩

theorem Breaks.card_eq_one (breaks : c.Breaks) (noCycle : ¬FindsCycle c.before c.after)
    (all : ∀ id, c.before.IsActive id → c.after.HasFailed id → id ∈ rules) :
    (broken rules c.before c.after).card = 1 := by
  cases breaks with
  | one culprit _ verdict =>
    refine Finset.card_eq_one.2 ⟨culprit, Finset.ext fun id => ?_⟩
    rw [mem_broken, verdict.alone, Finset.mem_singleton]
    refine ⟨And.right, fun same => ⟨?_, same⟩⟩
    obtain ⟨active, failed⟩ := (verdict.alone id).2 same
    exact all id active failed
  | chain events queue callback journal cycle _ =>
    have some : loops [] events ≠ [] := by
      rw [cycle]
      exact nofun
    exact absurd (.of_loops journal some) noCycle

theorem Within.all (within : c.Within e e')
    (all : ∀ id, e.IsActive id → e'.HasFailed id → id ∈ rules) :
    ∀ id, c.before.IsActive id → c.after.HasFailed id → id ∈ rules := fun id active failed =>
  all id (within.begun.framed.was_active active)
    ((Preserves.of_framed within.ended.framed).hasFailed failed)

end FailedCheck

/-- What checks come to of which these fail, where devices call nobody back. -/
structure Accounts (failed : List (FailedCheck σ)) (e e' : Engine σ) : Prop where
  breaks : ∀ c ∈ failed, c.Breaks
  /-- The rules that break are those which the failed checks break, each in one of them. -/
  once : ∀ rules, (broken rules e e').card =
    (failed.map fun c => (broken rules c.before c.after).card).sum
  /-- No fewer rules break in all than checks fail. -/
  atMost : ∀ rules, (∀ id, e.IsActive id → e'.HasFailed id → id ∈ rules) →
    failed.length ≤ (broken rules e e').card
  /-- And no more if no cycle comes up. -/
  exact : ¬FindsCycle e e' → ∀ rules, (∀ id, e.IsActive id → e'.HasFailed id → id ∈ rules) →
    failed.length = (broken rules e e').card

theorem Checks.accounts {depth : Nat} {ids : List ListenerId} {e e' : Engine σ}
    {failed : List (FailedCheck σ)} (checks : Checks (handle depth) ids e failed e')
    (hosted : Hosted e) : Accounts failed e e' := by
  have breaks := checks.breaks hosted
  have once := checks.card_broken hosted
  obtain ⟨_, within⟩ := checks.within hosted
  refine ⟨breaks, once, fun rules all => ?_, fun noCycle rules all => ?_⟩
  · rw [once]
    have positive : ∀ n ∈ failed.map fun c => (broken rules c.before c.after).card, 1 ≤ n := by
      refine List.forall_mem_map.2 fun c member => ?_
      exact (breaks c member).card_pos (within c member) ((within c member).all all)
    simpa using List.length_le_sum_of_one_le _ positive
  · rw [once]
    have one : ∀ n ∈ failed.map fun c => (broken rules c.before c.after).card, n = 1 := by
      refine List.forall_mem_map.2 fun c member => ?_
      refine (breaks c member).card_eq_one (fun found => noCycle ?_) ((within c member).all all)
      exact found.within (within c member).begun.grown (within c member).ended.grown
    simpa using (List.sum_eq_card_nsmul _ 1 one).symm

/-- The count of a tick is that of the checks that fail. -/
theorem tick_counts_failed_checks {e e' : Engine σ} {depth count : Nat} {book : Book}
    (run : book.tick (handle depth) e = some (count, e')) :
    ∃ failed, Checks (handle depth) book.rules e failed e' ∧ count = failed.length ∧
      (∀ c ∈ failed, c.Explained) ∧ (Hosted e → Accounts failed e e') := by
  obtain ⟨failed, checks, counted⟩ := checks_of_tick run
  exact ⟨failed, checks, counted, checks.explained, checks.accounts⟩

/-- The last two of these rules set each other off again and again. The first would have started
them, but the signal that it copies had no value then. -/
def latent : Engine Unit :=
  create {} ()
  |>.withRule ⟨1⟩
    { condition := "(sig Signals.A)", action := "(act Signals.Set 'B' (sig Signals.X))" }
  |>.withRule ⟨1⟩
    { condition := "(sig Signals.B)", action := "(act Signals.Set 'C' (sig Signals.B))" }
  |>.withRule ⟨1⟩
    { condition := "(sig Signals.C)", action := "(act Signals.Set 'B' (add (sig Signals.C) 100))" }
  |>.afterAll (fun _ => True) 9 [.activate ⟨1⟩, .activate ⟨2⟩, .activate ⟨3⟩,
    .set "A" (.number (.ofInt 1)), .set "X" (.number (.ofInt 1))]

theorem hosted_latent : Hosted latent := by
  have reached : Reached (fun _ => True) latent := by
    unfold latent
    exact ((((Reached.create {} ()).withRule _ _).withRule _ _).withRule _ _).afterAll _ _
  exact reached.hosted

def latentBook : Book := { host := ⟨1⟩, rules := [⟨1⟩, ⟨2⟩, ⟨3⟩] }

/-- All three rules break, and one check fails. -/
theorem latent_run : ∃ e', latentBook.tick (handle 9) latent = some (1, e') ∧
    (broken latentBook.rules.toFinset latent e').card = 3 := by
  have known : (latentBook.tick (handle 9) latent).map (fun answer =>
      (answer.1, (broken latentBook.rules.toFinset latent answer.2).card)) = some (1, 3) := by
    decide +kernel
  obtain ⟨⟨count, e'⟩, run, same⟩ := Option.map_eq_some_iff.1 known
  simp only [Prod.mk.injEq] at same
  obtain ⟨rfl, three⟩ := same
  exact ⟨e', run, three⟩

theorem latent_ticked : ∃ e' failed, latentBook.tick (handle 9) latent = some (1, e') ∧
    Checks (handle 9) latentBook.rules latent failed e' ∧ 1 = failed.length ∧
      (∀ c ∈ failed, c.Explained) ∧ Accounts failed latent e' ∧
        (broken latentBook.rules.toFinset latent e').card = 3 := by
  obtain ⟨e', run, three⟩ := latent_run
  obtain ⟨failed, checks, counted, explained, accounts⟩ := tick_counts_failed_checks run
  exact ⟨e', failed, run, checks, counted, explained, accounts hosted_latent, three⟩

/-- A tick can break more rules of its book than it counts. -/
theorem not_every_broken_rule_counted :
    ¬∀ {e e' : Engine Unit} {depth count : Nat} {book : Book}, Hosted e →
      book.tick (handle depth) e = some (count, e') →
        count = (broken book.rules.toFinset e e').card := by
  intro claimed
  obtain ⟨e', run, three⟩ := latent_run
  have one := claimed hosted_latent run
  rw [three] at one
  cases one

end Engine

end SignalRules
