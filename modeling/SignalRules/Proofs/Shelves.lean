import SignalRules.Proofs.Books
import SignalRules.Proofs.Wiring

/-! # Books side by side

Rules that are touched only through the books that hold them listen to the signals of their
conditions, once each, from when they are activated until they are dropped. However activating them
fails, and whatever becomes of them when they run, no subscription is lost, and none is left behind
when a book is cleared.
-/

namespace SignalRules

/-- What can be done with a book. -/
inductive Book.Use {σ : Type} : Book → Engine σ → Book → Engine σ → Prop where
  | add {e e' : Engine σ} {book book' : Book} {depth : Nat} {record : RuleRecord}
    {result : Except ScriptError ListenerId}
    (run : book.add (Engine.handle depth) record e = some ((result, book'), e')) :
    Use book e book' e'
  | importText {e e' : Engine σ} {book book' : Book} {depth : Nat} {text : String}
    {policy : Option ImportPolicy} {result : Except ImportError ImportReport}
    (run : book.importText (Engine.handle depth) text policy e = some ((result, book'), e')) :
    Use book e book' e'
  | tick {e e' : Engine σ} {book : Book} {depth failures : Nat}
    (run : book.tick (Engine.handle depth) e = some (failures, e')) : Use book e book e'
  | removeCompleted {e e' : Engine σ} {book book' : Book} {number : Nat}
    (run : book.removeCompleted e = some ((number, book'), e')) : Use book e book' e'
  | clear {e e' : Engine σ} {book book' : Book} (run : book.clear e = some (book', e')) :
    Use book e book' e'

namespace Engine

variable {σ : Type} {apart : ListenerId → Prop}

/-- The engines of sessions in which rules are touched only through their books, with these books.
The listeners of the host application are set `apart`; it may subscribe them as it pleases, and so
may they and the devices. -/
inductive Shelved (apart : ListenerId → Prop) : Engine σ → List Book → Prop where
  | create (config : Config) (foreign : σ) : Shelved apart (create config foreign) []
  | book {e : Engine σ} {books : List Book} (host : HostId) : Shelved apart e books →
    Shelved apart e (books ++ [{ host := host }])
  | register {e e' : Engine σ} {books : List Book} {device : Device σ} : Shelved apart e books →
    (∀ action values, (device.perform action values).HandsOff apart) →
      e.register device = .ok e' → Shelved apart e' books
  | listen {e : Engine σ} {books : List Book} {name : String}
    {respond : String → Program σ (Except ScriptError Unit)} : Shelved apart e books →
    (∀ signal, (respond signal).HandsOff apart) →
      Shelved apart (e.addListener (.external name respond)).2 books
  /-- The host application sets signals, announces changes, and the like. -/
  | program {e e' : Engine σ} {books : List Book} {α : Type} {program : Program σ α} {depth : Nat}
    {a : α} : Shelved apart e books → program.HandsOff apart →
    runProgram (handle depth) program e = some (a, e') → Shelved apart e' books
  | use {e e' : Engine σ} {before after : List Book} {book book' : Book} :
    Shelved apart e (before ++ book :: after) → book.Use e book' e' →
      (∀ {id rule}, e'.rule? id = some rule → ¬ apart id) →
        Shelved apart e' (before ++ book' :: after)

/-! ## One book -/

theorem keeps_compileRule (host : HostId) (record : RuleRecord) :
    Across Keeps (compileRule (σ := σ) host record) := by
  intro e result e' run
  rcases compileRule_cases run with ⟨_, _, rfl⟩ | ⟨rule, _, _, rfl⟩
  · exact .refl _
  · exact .addListener e _

theorem keeps_addAll (depth : Nat) (book : Book) (records : List RuleRecord) :
    Across Keeps (book.addAll (handle (σ := σ) depth) records) := by
  induction records generalizing book with
  | nil => exact keeps_closed.pure _
  | cons record records ih =>
    refine keeps_closed.bind (keeps_compileRule _ _) fun compiled => ?_
    cases compiled with
    | error _ => exact ih _
    | ok id =>
      refine keeps_closed.bind (keeps_closed.bind ?_ fun _ => keeps_closed.pure _) fun _ => ih _
      exact keeps_closed.activate (keeps_closed.handle depth) id

/-- The rules of a book and those of the others listen as they should, and the book has no rule
twice or from another. -/
structure Keeping (apart others : ListenerId → Prop) (e : Engine σ) (book : Book) : Prop where
  attentive : Attentive apart (fun id => others id ∨ id ∈ book.rules) e
  known : ∀ {id}, others id ∨ id ∈ book.rules → ∃ rule, e.rule? id = some rule
  nodup : book.rules.Nodup
  disjoint : ∀ {id}, id ∈ book.rules → ¬ others id

namespace Keeping

variable {others : ListenerId → Prop} {e e' : Engine σ} {book book' : Book}

theorem known_of_keeps (keeping : Keeping apart others e book) (keeps : Keeps e e')
    {id : ListenerId} (listed : others id ∨ id ∈ book.rules) : ∃ rule, e'.rule? id = some rule := by
  obtain ⟨rule, found⟩ := keeping.known listed
  obtain ⟨rule', found', _⟩ := keeps id rule found
  exact ⟨rule', found'⟩

theorem addRule (keeping : Keeping apart others e book) {rule : Rule}
    (ours : ¬ apart (e.addListener (.rule rule)).1) (inactive : rule.state = .inactive) :
    Keeping apart others (e.addListener (.rule rule)).2
      { book with rules := book.rules ++ [(e.addListener (.rule rule)).1] } := by
  have fresh {id : ListenerId} (listed : others id ∨ id ∈ book.rules) :
      id ≠ (e.addListener (.rule rule)).1 := by
    rintro rfl
    obtain ⟨_, found⟩ := keeping.known listed
    rw [rule?, listener?_new] at found
    cases found
  refine ⟨?_, ?_, ?_, ?_⟩
  · have attentive := keeping.attentive.addRule ours inactive
    exact attentive.congr fun id => by
      simp only [List.mem_append, List.mem_singleton, or_assoc]
  · intro id listed
    simp only [List.mem_append, List.mem_singleton, ← or_assoc] at listed
    obtain old | rfl := listed
    · exact keeping.known_of_keeps (.addListener e _) old
    · exact ⟨rule, by rw [rule?_addListener, if_pos rfl]⟩
  · rw [← List.concat_eq_append]
    exact keeping.nodup.concat fun listed => fresh (.inr listed) rfl
  · intro id listed other
    rcases List.mem_append.1 listed with old | new
    · exact keeping.disjoint old other
    · exact fresh (.inl other) (List.mem_singleton.1 new)

theorem activate (keeping : Keeping apart others e book) {depth : Nat} {id : ListenerId}
    (here : id ∈ book.rules) {result : Except ScriptError Unit}
    (run : activate (handle depth) id e = some (result, e')) : Keeping apart others e' book :=
  { keeping with
    attentive := keeping.attentive.activate (.inr here) run
    known := fun listed => keeping.known_of_keeps
      (keeps_closed.activate (keeps_closed.handle depth) id _ _ _ run) listed }

/-- A rule is taken into the book and activated. -/
theorem takeIn (keeping : Keeping apart others e book) {rule : Rule} (fresh : rule.IsFresh)
    {depth : Nat} {result : Except ScriptError Unit}
    (run : Engine.activate (handle depth) (e.addListener (.rule rule)).1
      (e.addListener (.rule rule)).2 = some (result, e'))
    (ours : ∀ {id rule}, e'.rule? id = some rule → ¬ apart id) :
    Keeping apart others e'
      { book with rules := book.rules ++ [(e.addListener (.rule rule)).1] } := by
  have found : (e.addListener (.rule rule)).2.rule? (e.addListener (.rule rule)).1 = some rule := by
    rw [rule?_addListener, if_pos rfl]
  obtain ⟨_, found', _⟩ :=
    keeps_closed.activate (keeps_closed.handle depth) _ _ _ _ run _ _ found
  exact (keeping.addRule (ours found') fresh.inactive).activate (by simp) run

theorem addAll {depth : Nat} {records : List RuleRecord} (keeping : Keeping apart others e book)
    (run : book.addAll (handle depth) records e = some (book', e'))
    (ours : ∀ {id rule}, e'.rule? id = some rule → ¬ apart id) :
    Keeping apart others e' book' := by
  induction records generalizing e book with
  | nil =>
    cases run
    exact keeping
  | cons record records ih =>
    obtain ⟨error, _, rest⟩ | ⟨rule, _, e₂, made, activate, rest⟩ := Book.addAll_cons_cases run
    · have kept : Keeping apart others e
          { book with invalid := book.invalid ++ [⟨record, error⟩] } :=
        ⟨keeping.attentive, keeping.known, keeping.nodup, keeping.disjoint⟩
      exact ih kept rest
    · have stays := keeps_addAll depth _ _ _ _ _ rest
      have oursStill {id : ListenerId} {rule : Rule} (found : e₂.rule? id = some rule) :
          ¬ apart id := by
        obtain ⟨_, found', _⟩ := stays id rule found
        exact ours found'
      exact ih (keeping.takeIn (Rule.isFresh_of_ofRecord made) activate oursStill) rest

/-- Some rules are taken back and dropped. -/
theorem drop (keeping : Keeping apart others e book) {left gone : List ListenerId}
    (sublist : left.Sublist book.rules) (within : gone ⊆ book.rules)
    (parted : ∀ id ∈ book.rules, id ∈ left ↔ id ∉ gone) (invalid : List InvalidRule) {done : PUnit}
    (run : gone.forM Engine.deactivate e = some (done, e')) :
    Keeping apart others e' { book with rules := left, invalid } where
  attentive := by
    refine (keeping.attentive.deactivateAll run).congr fun id => ⟨?_, ?_⟩
    · rintro ⟨other | listed, stays⟩
      · exact .inl other
      · exact .inr ((parted id listed).2 stays)
    · rintro (other | listed)
      · exact ⟨.inl other, fun goes => keeping.disjoint (within goes) other⟩
      · have before := sublist.subset listed
        exact ⟨.inr before, (parted id before).1 listed⟩
  known listed := keeping.known_of_keeps (Book.keeps_deactivateAll _ _ _ _ run)
    (listed.imp_right fun listed => sublist.subset listed)
  nodup := keeping.nodup.sublist sublist
  disjoint listed := keeping.disjoint (sublist.subset listed)

theorem tick (keeping : Keeping apart others e book) {depth failures : Nat}
    (run : book.tick (handle depth) e = some (failures, e')) : Keeping apart others e' book := by
  have each : ∀ ids, Gentle apart (Book.tick.go (σ := σ) (handle depth) ids) := by
    intro ids
    induction ids with
    | nil => exact .pure _
    | cons id ids ih =>
      refine .bind (.check (Gentle.handle depth) id) fun result => ?_
      cases result with
      | ok _ => exact ih
      | error _ => exact .bind ih fun _ => .pure _
  have undisturbed := each book.rules _ _ _ keeping.attentive.tame run
  exact
    { keeping with
      attentive := keeping.attentive.undisturbed undisturbed
      known := fun listed => keeping.known_of_keeps (Book.keeps_tick run) listed }

theorem use (keeping : Keeping apart others e book) (use : book.Use e book' e')
    (ours : ∀ {id rule}, e'.rule? id = some rule → ¬ apart id) :
    Keeping apart others e' book' := by
  cases use with
  | add run =>
    obtain ⟨_, _, rfl, rfl⟩ | ⟨rule, _, made, activate, rfl⟩ := Book.add_cases run
    · exact keeping
    · exact keeping.takeIn (Rule.isFresh_of_ofRecord made) activate ours
  | importText run =>
    obtain ⟨_, _, rfl, rfl⟩ | ⟨report, _, _, added⟩ := Book.importText_cases run
    · exact keeping
    · exact keeping.addAll added ours
  | tick run => exact keeping.tick run
  | removeCompleted run =>
    obtain ⟨completed, ran, rfl⟩ := Book.removeCompleted_cases run
    exact keeping.drop List.filter_sublist List.filter_sublist.subset
      (fun id listed => by simp [listed]) book.invalid ran
  | clear run =>
    obtain ⟨ran, rfl⟩ := Book.clear_cases run
    exact keeping.drop (List.nil_sublist _) (List.Subset.refl _)
      (fun id listed => by simp [listed]) [] ran

end Keeping

/-! ## All books -/

/-- Just the rules of the books listen, and no rule is in two places. -/
structure Arranged (apart : ListenerId → Prop) (e : Engine σ) (books : List Book) : Prop where
  attentive : Attentive apart (fun id => id ∈ books.flatMap Book.rules) e
  known : ∀ {id}, id ∈ books.flatMap Book.rules → ∃ rule, e.rule? id = some rule
  nodup : (books.flatMap Book.rules).Nodup

theorem flatMap_rules_perm (before after : List Book) (book : Book) :
    ((before ++ book :: after).flatMap Book.rules).Perm
      (book.rules ++ (before ++ after).flatMap Book.rules) := by
  rw [List.flatMap_append, List.flatMap_cons, List.flatMap_append]
  exact List.perm_append_comm_assoc _ _ _

namespace Arranged

variable {e e' : Engine σ} {books before after : List Book} {book book' : Book}

theorem keeping (arranged : Arranged apart e (before ++ book :: after)) :
    Keeping apart (fun id => id ∈ (before ++ after).flatMap Book.rules) e book := by
  have perm := flatMap_rules_perm before after book
  have listed (id : ListenerId) : id ∈ (before ++ book :: after).flatMap Book.rules ↔
      id ∈ (before ++ after).flatMap Book.rules ∨ id ∈ book.rules := by
    rw [perm.mem_iff, List.mem_append, or_comm]
  obtain ⟨nodup, -, disjoint⟩ := List.nodup_append.1 (perm.nodup_iff.1 arranged.nodup)
  exact ⟨arranged.attentive.congr listed, fun here => arranged.known ((listed _).2 here), nodup,
    fun here there => disjoint _ here _ there rfl⟩

theorem of_keeping (arranged : Arranged apart e (before ++ book :: after))
    (keeping : Keeping apart (fun id => id ∈ (before ++ after).flatMap Book.rules) e' book') :
    Arranged apart e' (before ++ book' :: after) := by
  have perm := flatMap_rules_perm before after book'
  have listed (id : ListenerId) : id ∈ (before ++ book' :: after).flatMap Book.rules ↔
      id ∈ (before ++ after).flatMap Book.rules ∨ id ∈ book'.rules := by
    rw [perm.mem_iff, List.mem_append, or_comm]
  have others := (List.nodup_append.1
    ((flatMap_rules_perm before after book).nodup_iff.1 arranged.nodup)).2.1
  refine ⟨keeping.attentive.congr fun id => (listed id).symm, fun here =>
    keeping.known ((listed _).1 here), perm.nodup_iff.2 (List.nodup_append.2 ⟨keeping.nodup, others,
      ?_⟩)⟩
  rintro _ here _ there rfl
  exact keeping.disjoint here there

theorem undisturbed (arranged : Arranged apart e books) (undisturbed : Undisturbed apart e e') :
    Arranged apart e' books where
  attentive := arranged.attentive.undisturbed undisturbed
  known listed := by
    obtain ⟨rule, found⟩ := arranged.known listed
    obtain ⟨rule', found', _⟩ := undisturbed.rules found
    exact ⟨rule', found'⟩
  nodup := arranged.nodup

end Arranged

theorem Shelved.arranged {e : Engine σ} {books : List Book} (shelved : Shelved apart e books) :
    Arranged apart e books := by
  induction shelved with
  | create config foreign =>
    exact ⟨(Attentive.create config foreign).congr fun _ => by simp, by simp, by simp⟩
  | @book _ books host _ ih =>
    have same : (books ++ [({ host } : Book)]).flatMap Book.rules = books.flatMap Book.rules := by
      simp
    exact ⟨same ▸ ih.attentive, same ▸ ih.known, same ▸ ih.nodup⟩
  | register _ handsOff registered ih =>
    refine ⟨ih.attentive.register handsOff registered, fun listed => ?_, ih.nodup⟩
    obtain ⟨rule, found⟩ := ih.known listed
    obtain ⟨rule', found', _⟩ := (register_apart registered).rules _ _ found
    exact ⟨rule', found'⟩
  | listen _ handsOff ih =>
    refine ⟨ih.attentive.listen handsOff, fun listed => ?_, ih.nodup⟩
    obtain ⟨rule, found⟩ := ih.known listed
    exact ⟨rule, rule?_addListener_of_some found _⟩
  | program _ handsOff run ih =>
    exact ih.undisturbed
      (Gentle.runProgram (Gentle.handle _) handsOff _ _ _ ih.attentive.tame run)
  | use _ use ours ih => exact ih.of_keeping (ih.keeping.use use ours)

/-! ## Clearing -/

theorem exists_unsubscribeAll (id : ListenerId) (signals : List Ref) (e : Engine σ) :
    ∃ e', (signals.forM fun signal => unsubscribe signal id) e = some (⟨⟩, e') := by
  induction signals generalizing e with
  | nil => exact ⟨e, rfl⟩
  | cons signal signals ih =>
    obtain ⟨e', ran⟩ := ih { e with subscriptions := e.subscriptions.remove signal id }
    exact ⟨e', Run.bind_eq_some_iff.2 ⟨_, _, rfl, ran⟩⟩

theorem exists_uninstall (owner : Option ListenerId) (action : Ref) (e : Engine σ) :
    ∃ e', uninstall owner action e = some ((), e') := by
  unfold uninstall
  simp only [Run.get_bind_apply]
  rcases e.provider action.name with _ | _ | _ | _ <;> exact ⟨_, rfl⟩

theorem exists_deactivate (id : ListenerId) (e : Engine σ) :
    ∃ e', deactivate id e = some ((), e') := by
  unfold deactivate
  simp only [Run.get_bind_apply]
  cases e.rule? id with
  | none => exact ⟨e, rfl⟩
  | some rule =>
    obtain ⟨e₁, ran⟩ := exists_unsubscribeAll id rule.signals e
    obtain ⟨e₂, ranToo⟩ := exists_uninstall (some id) rule.actionRef e₁
    refine ⟨_, Run.bind_eq_some_iff.2 ⟨_, e₂, Run.bind_eq_some_iff.2 ⟨_, e₁, ran, ranToo⟩, rfl⟩⟩

theorem exists_clear (book : Book) (e : Engine σ) :
    ∃ e', book.clear e = some ({ book with rules := [], invalid := [] }, e') := by
  have each : ∀ (ids : List ListenerId) (e : Engine σ),
      ∃ e', ids.forM deactivate e = some (⟨⟩, e') := by
    intro ids
    induction ids with
    | nil => exact fun e => ⟨e, rfl⟩
    | cons id ids ih =>
      intro e
      obtain ⟨e₁, ran⟩ := exists_deactivate id e
      obtain ⟨e', rest⟩ := ih e₁
      exact ⟨e', Run.bind_eq_some_iff.2 ⟨_, e₁, ran, rest⟩⟩
  obtain ⟨e', ran⟩ := each book.rules e
  exact ⟨e', Run.bind_eq_some_iff.2 ⟨_, e', ran, rfl⟩⟩

/-- In a session in which rules are touched only through their books, a rule is subscribed to a
signal on a host just if it is in a book, is not inactive, belongs to the host and names the signal
in its condition; and then it is subscribed once. Clearing a book always succeeds, and leaves no
subscription of any of its rules. -/
theorem books_keep_subscriptions {e : Engine σ} {books : List Book}
    (shelved : Shelved apart e books) :
    (∀ {id rule}, e.rule? id = some rule → ∀ signal, e.subscriptions.count signal id =
      if (∃ book ∈ books, id ∈ book.rules) ∧ rule.state ≠ .inactive ∧ signal.host = rule.host ∧
        signal.name ∈ rule.condition.signalNames then 1 else 0) ∧
    ∀ book ∈ books, ∃ e', book.clear e = some ({ book with rules := [], invalid := [] }, e') ∧
      ∀ id ∈ book.rules, ∀ signal, e'.subscriptions.count signal id = 0 := by
  have arranged := shelved.arranged
  constructor
  · intro id rule found signal
    have attentive := arranged.attentive
    rw [attentive.proper.count_eq]
    refine if_congr ?_ rfl rfl
    rw [attentive.subscribed (attentive.ours found), List.mem_flatMap]
    refine and_congr_right fun _ => ?_
    simp [found, Rule.mem_signals]
  · intro book listed
    obtain ⟨e', run⟩ := exists_clear book e
    obtain ⟨before, after, rfl⟩ := List.append_of_mem listed
    have keeping := arranged.keeping
    obtain ⟨_, _, ran, finish⟩ := Run.bind_eq_some_iff.1 run
    cases finish
    have attentive := keeping.attentive.deactivateAll ran
    refine ⟨_, run, fun id here signal => ?_⟩
    obtain ⟨rule, found⟩ := keeping.known (.inr here)
    rw [attentive.proper.count_eq, if_neg]
    rw [attentive.subscribed (keeping.attentive.ours found)]
    exact fun listens => listens.1.2 here

/-- A host application with a listener of its own, which it has subscribed to the ticker. -/
def lamplit : Engine Unit :=
  { create {} () with
    listeners := [.external "lamp" fun _ => .finish (.ok ())]
    subscriptions := ⟨[⟨⟨"Debug.Ticker", ⟨1⟩⟩, [⟨1⟩]⟩]⟩ }

theorem shelved_lamplit : Shelved (· = ⟨1⟩) lamplit [{ host := ⟨1⟩ }] := by
  have created : Shelved (· = ⟨1⟩) (create {} ()) [{ host := ⟨1⟩ }] :=
    (Shelved.create {} ()).book ⟨1⟩
  have listening : Shelved (· = ⟨1⟩)
      ((create {} ()).addListener (.external "lamp" fun _ => .finish (.ok ()))).2
      [{ host := ⟨1⟩ }] := created.listen fun _ => .finish _
  have asked : Program.HandsOff (σ := Unit) (· = ⟨1⟩)
      (Program.ask (.subscribe ⟨"Debug.Ticker", ⟨1⟩⟩ ⟨1⟩)) := .request rfl fun _ => .finish _
  have ran : runProgram (handle 1) (Program.ask (.subscribe ⟨"Debug.Ticker", ⟨1⟩⟩ ⟨1⟩))
      ((create {} ()).addListener (.external "lamp" fun _ => .finish (.ok ()))).2 =
        some (.ok (), lamplit) := rfl
  exact listening.program asked ran

/-- Beside a listener of the host application, a rule listens once, and no more when its book is
cleared. -/
theorem lamplit_keeps_subscriptions : ∃ (e e' : Engine Unit) (book : Book),
    Shelved (· = ⟨1⟩) e [book] ∧ e.subscriptions.count ⟨"Debug.Ticker", ⟨1⟩⟩ ⟨2⟩ = 1 ∧
      book.clear e = some ({ host := ⟨1⟩ }, e') ∧
        e'.subscriptions.count ⟨"Debug.Ticker", ⟨1⟩⟩ ⟨2⟩ = 0 := by
  have known :
      (Book.add (handle 2) { host := ⟨1⟩ } Book.unnamed lamplit).map (fun answer =>
        (answer.1.2, (answer.2.rule? ⟨1⟩).isNone, (answer.2.rule? ⟨2⟩).any fun rule =>
          rule.state = .active ∧ rule.host = ⟨1⟩ ∧ "Debug.Ticker" ∈ rule.condition.signalNames)) =
      some ({ host := ⟨1⟩, rules := [⟨2⟩] }, true, true) := by
    decide +kernel
  obtain ⟨⟨⟨result, book⟩, e⟩, run, same⟩ := Option.map_eq_some_iff.1 known
  simp only [Prod.mk.injEq, Option.isNone_iff_eq_none, Option.any_eq_true,
    decide_eq_true_eq] at same
  obtain ⟨rfl, foreign, rule, found, active, host, named⟩ := same
  have shelved : Shelved (· = ⟨1⟩) e [{ host := ⟨1⟩, rules := [⟨2⟩] }] := by
    refine Shelved.use (show Shelved _ lamplit ([] ++ _ :: []) from shelved_lamplit) (.add run) ?_
    rintro _ _ found rfl
    rw [foreign] at found
    cases found
  obtain ⟨counted, cleared⟩ := books_keep_subscriptions shelved
  obtain ⟨e', run', gone⟩ := cleared _ List.mem_cons_self
  refine ⟨e, e', _, shelved, ?_, run', gone _ List.mem_cons_self _⟩
  have running : rule.state ≠ .inactive := by simp [active]
  rw [counted found,
    if_pos ⟨⟨_, List.mem_cons_self, List.mem_cons_self⟩, running, host.symm, named⟩]

end Engine

end SignalRules
