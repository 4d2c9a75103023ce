import SignalRules.Proofs.Changes
import SignalRules.Proofs.Propagation
import SignalRules.Proofs.Reimport
import SignalRules.Proofs.Shelves

/-! # Taking in a text

When a text is imported into a book, its scripts are compiled twice: first when the text is read,
and again when its rules are taken in one by one, while those before are active already and may
fire. Without devices nothing that happens meanwhile changes what a script means. So both agree on
every record, and each comes to stand in one of the two lists of the book.
-/

namespace SignalRules

/-- A record makes a rule if all its scripts compile. -/
theorem RuleRecord.isOk_ofRecord (scope : Scope) (record : RuleRecord) :
    (Rule.ofRecord scope record).isOk = record.compiles scope := by
  obtain ⟨condition, action, template, precondition⟩ := record
  have parts : (do
      let condition ← scope.parseCondition condition
      let action ← scope.parseCall action
      let rule ← Rule.ofParts scope.host condition action
      return { rule with template := template, precondition := precondition } :
        Except ScriptError Rule).isOk =
      ((scope.parseCondition condition).isOk && (scope.parseCall action).isOk) := by
    cases parsed : scope.parseCondition condition with
    | error _ => rfl
    | ok expr =>
      cases scope.parseCall action with
      | error _ => rfl
      | ok call =>
        have isNumber : expr.type? = some .number := by
          obtain ⟨expr', _, typed⟩ := Except.bind_eq_ok parsed
          split at typed <;> cases typed
          assumption
        simp only [bind, Except.bind, Rule.ofParts, if_pos isNumber]
        rfl
  unfold Rule.ofRecord RuleRecord.compiles
  cases precondition with
  | none => exact parts
  | some script =>
    cases parsed : scope.parseCondition script with
    | error _ => simp only [Option.all_some, parsed]; rfl
    | ok _ => simp only [Option.all_some, parsed]; exact parts

namespace Engine

variable {σ : Type}

/-- Without devices, what scripts mean is a matter of the configuration alone. -/
theorem scope_congr {e e' : Engine σ} (bare : e.devices = []) (devices : e'.devices = e.devices)
    (config : e'.config = e.config) (host : HostId) : e'.scope host = e.scope host := by
  have provider (name : String) : e'.provider name = e.provider name := by
    unfold Engine.provider
    rw [devices]
  have noDevice {name : String} {device : Device σ}
      (found : e.provider name = .ok (.device device)) : False :=
    provider_of_no_devices bare name device found
  have signal (ref : Ref) : e'.signalDef ref = e.signalDef ref := by
    unfold signalDef
    rw [provider]
    split <;> first | rfl | exact (noDevice ‹_›).elim
  have source (ref : Ref) : e'.checkSource ref = e.checkSource ref := by
    unfold checkSource
    rw [provider]
    split <;> first | rfl | exact (noDevice ‹_›).elim
  have action (ref : Ref) : e'.actionDef ref = e.actionDef ref := by
    unfold actionDef
    rw [provider]
    split <;> first | rfl | exact (noDevice ‹_›).elim
  have executor (ref : Ref) : e'.checkExecutor ref = e.checkExecutor ref := by
    unfold checkExecutor
    rw [provider]
    split <;> first | rfl | exact (noDevice ‹_›).elim
  simp only [scope, config, signal, source, action, executor]

/-! ## Records taken in -/

/-- The record has been made into this rule, whatever has become of the rule since. -/
def MadeInto (scope : Scope) (e : Engine σ) (record : RuleRecord) (id : ListenerId) : Prop :=
  ∃ made rule, Rule.ofRecord scope record = .ok made ∧ e.rule? id = some rule ∧
    rule.parts = made.parts

/-- Which records have become new rules, and which have stayed as they are. -/
structure Sorted (scope : Scope) (e e' : Engine σ) (records : List RuleRecord)
    (ids : List ListenerId) (invalid : List InvalidRule) : Prop where
  rules : List.Forall₂ (MadeInto scope e') (records.filter fun record => record.compiles scope) ids
  new : ∀ id ∈ ids, e.rule? id = none
  nodup : ids.Nodup
  invalid : List.Forall₂ (fun record kept => kept.record = record ∧
    Rule.ofRecord scope record = .error kept.error)
    (records.filter fun record => !record.compiles scope) invalid

namespace Sorted

variable {scope : Scope} {e e₁ e' : Engine σ} {record : RuleRecord} {records : List RuleRecord}
  {ids : List ListenerId} {invalid : List InvalidRule}

theorem nil (e : Engine σ) : Sorted scope e e [] [] [] :=
  ⟨.nil, nofun, .nil, .nil⟩

theorem refuse {error : ScriptError} (refused : Rule.ofRecord scope record = .error error)
    (rest : Sorted scope e e' records ids invalid) :
    Sorted scope e e' (record :: records) ids (⟨record, error⟩ :: invalid) := by
  have compiles : record.compiles scope = false := by
    rw [← RuleRecord.isOk_ofRecord, refused]
    rfl
  refine ⟨?_, rest.new, rest.nodup, ?_⟩
  · rw [List.filter_cons, compiles]
    exact rest.rules
  · rw [List.filter_cons, compiles]
    exact .cons ⟨rfl, refused⟩ rest.invalid

theorem take {id : ListenerId} (made : MadeInto scope e' record id) (new : e.rule? id = none)
    (there : ∃ rule, e₁.rule? id = some rule) (keeps : Keeps e e₁)
    (rest : Sorted scope e₁ e' records ids invalid) :
    Sorted scope e e' (record :: records) (id :: ids) invalid := by
  have compiles : record.compiles scope = true := by
    obtain ⟨_, _, compiled, _⟩ := made
    rw [← RuleRecord.isOk_ofRecord, compiled]
    rfl
  refine ⟨?_, List.forall_mem_cons.2 ⟨new, fun other member => ?_⟩,
    List.nodup_cons.2 ⟨fun member => ?_, rest.nodup⟩, ?_⟩
  · rw [List.filter_cons, compiles]
    exact .cons made rest.rules
  · cases found : e.rule? other with
    | none => rfl
    | some rule =>
      obtain ⟨_, found', _⟩ := keeps other rule found
      cases found'.symm.trans (rest.new other member)
  · obtain ⟨rule, found⟩ := there
    cases found.symm.trans (rest.new id member)
  · rw [List.filter_cons, compiles]
    exact rest.invalid

end Sorted

/-- The records of a text are sorted by whether they compile in the scope of the book's host as it
was before any of them was taken in. -/
theorem sorted_of_addAll {depth : Nat} {records : List RuleRecord} {e e' : Engine σ}
    {book book' : Book} (bare : e.devices = [])
    (run : book.addAll (handle depth) records e = some (book', e')) :
    ∃ ids invalid, book' = { book with
        rules := book.rules ++ ids, invalid := book.invalid ++ invalid } ∧
      Sorted (e.scope book.host) e e' records ids invalid := by
  induction records generalizing e book with
  | nil =>
    cases run
    exact ⟨[], [], by simp, .nil _⟩
  | cons record records ih =>
    obtain ⟨error, made, rest⟩ | ⟨rule, _, e₁, made, activated, rest⟩ := Book.addAll_cons_cases run
    · obtain ⟨ids, invalid, rfl, sorted⟩ := ih bare rest
      exact ⟨ids, ⟨record, error⟩ :: invalid, by simp, sorted.refuse made⟩
    · have settings := (changes_activate depth _ _ _ _ activated).settings
      obtain ⟨ids, invalid, rfl, sorted⟩ := ih (settings.2.trans bare) rest
      rw [scope_congr bare settings.2 settings.1] at sorted
      have activates := keeps_closed.activate (keeps_closed.handle depth) _ _ _ _ activated
      obtain ⟨rule₁, found, sameParts⟩ :=
        activates _ rule (by rw [rule?_addListener, if_pos rfl])
      obtain ⟨rule', found', sameParts'⟩ := keeps_addAll depth _ _ _ _ _ rest _ rule₁ found
      refine ⟨(e.addListener (.rule rule)).1 :: ids, invalid, by simp, sorted.take
        ⟨rule, rule', made, found', sameParts'.trans sameParts⟩ ?_ ⟨rule₁, found⟩
        ((Keeps.addListener e _).trans activates)⟩
      rw [rule?, listener?_new]

/-! ## Imports end -/

theorem limit_closed : Closed (σ := σ) fun e e' => e'.dispatcher.limit = e.dispatcher.limit where
  refl _ := rfl
  trans ab bc := bc.trans ab
  apart apart := congrArg Dispatcher.limit apart.dispatcher
  refused _ := Dispatcher.limit_enter _ _
  taken _ inside :=
    (Dispatcher.limit_leave _ _ _).trans (inside.trans (Dispatcher.limit_enter _ _))

/-- With rules alone, and devices that call nobody back, records are taken in to the last. -/
theorem Hosted.addAll_ends {e : Engine σ} (hosted : Hosted e) {depth : Nat}
    (deep : e.dispatcher.limit < depth) (book : Book) (records : List RuleRecord) :
    Ends (book.addAll (handle depth) records) e := by
  induction records generalizing e book with
  | nil => exact .pure _ e
  | cons record records ih =>
    rw [Book.addAll]
    cases made : Rule.ofRecord (e.scope book.host) record with
    | error error =>
      have compiled : compileRule book.host record e = some (.error error, e) := by
        simp only [compileRule, Run.get_bind_apply, made, Run.pure_apply]
      exact .after compiled (ih hosted deep _)
    | ok rule =>
      have compiled : compileRule book.host record e =
          some (.ok (e.addListener (.rule rule)).1, (e.addListener (.rule rule)).2) := by
        simp only [compileRule, Run.get_bind_apply, made]
        rfl
      refine .after compiled ?_
      have listened := hosted.listen rule
      refine .bind ?_ fun _ e₁ ran => ?_
      · exact ((Hosted.serves deep).activate listened.roomy _).bind fun _ _ _ => .pure _ _
      · have activates : (activate (handle depth) (e.addListener (.rule rule)).1 >>=
            fun _ => pure ()) (e.addListener (.rule rule)).2 = some ((), e₁) := ran
        obtain ⟨result, _, activated, finish⟩ := Run.bind_eq_some_iff.1 activates
        cases finish
        have served : handle (depth + 1) (.activate (e.addListener (.rule rule)).1)
            (e.addListener (.rule rule)).2 = some (result, e₁) := activated
        have sameLimit := limit_closed.activate (limit_closed.handle depth) _ _ _ _ activated
        exact ih (listened.handled served) (sameLimit ▸ deep) _

/-! ## Imports -/

/-- What has become of a book, and of its engine, once the records of a report are taken in. -/
structure Intake (e e' : Engine σ) (book book' : Book) (policy : ImportPolicy)
    (report : ImportReport) : Prop where
  host : book'.host = book.host
  /-- No rule is lost that was there before. -/
  keeps : Keeps e e'
  /-- What is new comes behind what is old, in the order of the report: a record whose scripts
  compile among the rules, any other among the invalid. -/
  sorted : ∃ ids invalid, book'.rules = book.rules ++ ids ∧
    book'.invalid = book.invalid ++ invalid ∧
    Sorted (e.scope book.host) e e' report.rules ids invalid
  count : book'.rules.length + book'.invalid.length =
    book.rules.length + book.invalid.length + report.rules.length
  valid : policy ≠ .allowErrors → book'.invalid = book.invalid

theorem Sorted.length {scope : Scope} {e e' : Engine σ} {records : List RuleRecord}
    {ids : List ListenerId} {invalid : List InvalidRule}
    (sorted : Sorted scope e e' records ids invalid) :
    ids.length + invalid.length = records.length := by
  rw [← sorted.rules.length_eq, ← sorted.invalid.length_eq, ← List.countP_eq_length_filter,
    ← List.countP_eq_length_filter, List.length_eq_countP_add_countP fun record =>
      record.compiles scope]
  simp

/-- Without devices, importing a text does nothing at all, or takes in every record that the text
comes to. -/
theorem importText_atomic {e : Engine σ} (bare : e.devices = []) (book : Book) (text : String)
    (policy : Option ImportPolicy) (depth : Nat) :
    (∀ {error book' e'},
      book.importText (handle depth) text policy e = some ((.error error, book'), e') →
        book' = book ∧ e' = e) ∧
    (∀ {report book' e'},
      book.importText (handle depth) text policy e = some ((.ok report, book'), e') →
        Intake e e' book book' (policy.getD e.config.importPolicy) report) ∧
    (Hosted e → e.dispatcher.limit < depth →
      ∃ result e', book.importText (handle depth) text policy e = some (result, e')) := by
  simp only [Book.importText, Run.get_bind_apply]
  cases imported : RuleText.read (some (e.scope book.host)) (policy.getD e.config.importPolicy)
    text with
  | error error =>
    refine ⟨?_, ?_, fun _ _ => ⟨_, e, rfl⟩⟩
    · rintro _ _ _ ⟨⟩
      exact ⟨rfl, rfl⟩
    · rintro _ _ _ ⟨⟩
  | ok report =>
    refine ⟨?_, ?_, fun hosted deep => ?_⟩
    · intro _ _ _ run
      obtain ⟨_, _, _, finish⟩ := Run.bind_eq_some_iff.1 run
      cases finish
    · intro _ _ e' run
      obtain ⟨_, _, added, finish⟩ := Run.bind_eq_some_iff.1 run
      cases finish
      obtain ⟨ids, invalid, rfl, sorted⟩ := sorted_of_addAll bare added
      refine ⟨rfl, keeps_addAll depth _ _ _ _ _ added, ⟨ids, invalid, rfl, rfl, sorted⟩, ?_, ?_⟩
      · have length := sorted.length
        simp only [List.length_append]
        omega
      · intro looked
        have passes := RuleText.passes_of_select RuleText.isWhole_of_scan
          (RuleText.read_eq_ok_iff.1 imported).2
        have none : report.rules.filter (fun record => !record.compiles (e.scope book.host)) =
            [] := by
          rw [List.filter_eq_nil_iff]
          intro record member
          simp [passes record member _ rfl looked]
        have empty := sorted.invalid
        rw [none, List.forall₂_nil_left_iff] at empty
        simp [empty]
    · exact (hosted.addAll_ends deep book report.rules).bind fun _ _ _ => .pure _ _

/-- Two rules, the first of which fires as soon as it is taken in. The second does not compile. -/
def medley : String :=
  "condition: (eq 0 0)\naction: (act Signals.Set 'A' 500)\n\ncondition: (sig Bell.Rope)\naction: no"

theorem intake_of_medley : ∃ report book' e',
    Book.importText (handle 3) { host := ⟨1⟩ } medley (some .allowErrors) (create {} ()) =
      some ((.ok report, book'), e') ∧
    book'.rules = [⟨1⟩] ∧
    book'.invalid.map InvalidRule.record = [⟨"(sig Bell.Rope)", "no", none, none⟩] ∧
    e'.globals.get? "A" = some (.number (.ofInt 5)) ∧
    Intake (create {} ()) e' { host := ⟨1⟩ } book' .allowErrors report := by
  have known : (Book.importText (handle 3) { host := ⟨1⟩ } medley (some .allowErrors)
      (create {} ())).map (fun answer => (answer.1.1.isOk, answer.1.2.rules,
        answer.1.2.invalid.map InvalidRule.record, answer.2.globals.get? "A")) =
      some (true, [⟨1⟩], [⟨"(sig Bell.Rope)", "no", none, none⟩], some (.number (.ofInt 5))) := by
    decide +kernel
  obtain ⟨⟨⟨result, book'⟩, e'⟩, run, found⟩ := Option.map_eq_some_iff.1 known
  simp only [Prod.mk.injEq] at found
  obtain ⟨isOk, rules, invalid, fired⟩ := found
  cases result with
  | error _ => cases isOk
  | ok report =>
    have taken := (importText_atomic (e := create {} ()) rfl { host := ⟨1⟩ } medley
      (some .allowErrors) 3).2.1 run
    exact ⟨report, book', e', run, rules, invalid, fired, taken⟩

end Engine

end SignalRules
