import SignalRules.Book
import SignalRules.Proofs.Printing
import SignalRules.Proofs.Rendering

/-! # Books

What a book holds comes back when the text that it exports is read, however the book came about.
Rules are exported as they are printed, and printed scripts have no blank ends; a record that does
not compile is in a book only if it was read from a text, so it is plain.
-/

namespace SignalRules

/-! ## Printed scripts -/

theorem Text.trim_enclosed {first last : Char} (front : isBlank first = false)
    (back : isBlank last = false) (cs : List Char) :
    trim (first :: cs ++ [last]) = first :: cs ++ [last] := by
  apply trim_of_stops
  · rintro _ ⟨⟩
    exact front
  · rw [List.reverse_append]
    rintro _ ⟨⟩
    exact back

/-- Scripts are printed without blank ends. -/
theorem Term.trim_toScript (term : Term) :
    Text.trim term.toScript.toList = term.toScript.toList := by
  rw [toList_toScript]
  cases term with
  | constant value =>
    cases value with
    | number n =>
      have visible : ∀ c ∈ n.toLiteral.toList, Text.isBlank c = false := fun c member =>
        Sexp.not_isBlank_of_isSymbolChar ((Fixed.isNumber_toLiteral n).isSymbolChar c member)
      rw [toSexp, Sexp.chars]
      apply Text.trim_of_stops
      · exact fun c first => visible c (List.mem_of_mem_head? first)
      · exact fun c last => visible c (List.mem_reverse.1 (List.mem_of_mem_head? last))
    | string text =>
      rw [toSexp, Sexp.chars]
      exact Text.trim_enclosed (by decide) (by decide) _
  | signal | operator | action =>
    rw [toSexp, Sexp.chars]
    exact Text.trim_enclosed (by decide) (by decide) _

theorem Term.toScript_ne_nil (term : Term) : term.toScript.toList ≠ [] := by
  rw [toList_toScript]
  cases term with
  | constant value =>
    cases value with
    | number n =>
      rw [toSexp, Sexp.chars, Fixed.toList_toLiteral]
      split
      · exact List.cons_ne_nil _ _
      · exact Nat.toDigits_ne_nil
    | string text =>
      rw [toSexp, Sexp.chars]
      exact List.cons_ne_nil _ _
  | signal | operator | action =>
    rw [toSexp, Sexp.chars]
    exact List.cons_ne_nil _ _

/-! ## Exported records -/

namespace RuleRecord

/-- No value has a line feed. -/
def OneLine (record : RuleRecord) : Prop :=
  ∀ text ∈ record.condition :: record.action ::
    (record.template.toList ++ record.precondition.toList), '\n' ∉ text.toList

end RuleRecord

/-- What is read back of a rule: the scripts of its condition and its action, and its template and
its precondition trimmed, unless they are blank. -/
def Rule.exported (rule : Rule) : RuleRecord :=
  { rule.toRecord with
    template := rule.template.bind Text.tidied?
    precondition := rule.precondition.bind Text.tidied? }

theorem Rule.tidied_toRecord (rule : Rule) : rule.toRecord.tidied = rule.exported := by
  have trimmed : ∀ expr : Expr, Text.trimmed expr.toScript = expr.toScript := by
    intro expr
    rw [Text.trimmed, Expr.toScript, Term.trim_toScript, String.ofList_toList]
  simp only [RuleRecord.tidied, exported, toRecord, trimmed]

theorem Text.isValue_of_tidied? {text value : String} (left : Text.tidied? text = some value)
    (oneLine : '\n' ∉ value.toList) : RuleText.IsValue value.toList := by
  unfold Text.tidied? at left
  split at left
  · cases left
  · rename_i visible
    cases left
    rw [trimmed, String.toList_ofList] at oneLine ⊢
    exact ⟨by simpa using visible, trim_trim _, oneLine⟩

theorem Rule.isPlain_exported {rule : Rule} (oneLine : rule.exported.OneLine) :
    rule.exported.IsPlain := by
  have script : ∀ expr : Expr, '\n' ∉ expr.toScript.toList →
      RuleText.IsValue expr.toScript.toList := fun expr oneLine =>
    ⟨Term.toScript_ne_nil _, Term.trim_toScript _, oneLine⟩
  have optional : ∀ optional : Option String,
      (∀ text ∈ optional.bind Text.tidied?, '\n' ∉ text.toList) →
        ∀ text ∈ optional.bind Text.tidied?, RuleText.IsValue text.toList := by
    intro optional oneLine text left
    obtain ⟨written, _, tidied⟩ := Option.bind_eq_some_iff.1 left
    exact Text.isValue_of_tidied? tidied (oneLine text left)
  refine ⟨script _ (oneLine _ (by simp [exported, toRecord])),
    script _ (oneLine _ (by simp [exported, toRecord])), optional _ ?_, optional _ ?_⟩
  · exact fun text left => oneLine text (by simp [exported, Option.mem_def.1 left])
  · exact fun text left => oneLine text (by simp [exported, Option.mem_def.1 left])

/-! ## Books and engines -/

namespace Engine

variable {σ : Type}

theorem compileRule_cases {host : HostId} {record : RuleRecord} {e e' : Engine σ}
    {result : Except ScriptError ListenerId}
    (run : compileRule host record e = some (result, e')) :
    (∃ error, result = .error error ∧ e' = e) ∨
      ∃ rule, Rule.ofRecord (e.scope host) record = .ok rule ∧
        result = .ok (e.addListener (.rule rule)).1 ∧ e' = (e.addListener (.rule rule)).2 := by
  simp only [compileRule, Run.get_bind_apply] at run
  cases made : Rule.ofRecord (e.scope host) record with
  | ok rule =>
    rw [made] at run
    cases run
    exact .inr ⟨rule, rfl, rfl, rfl⟩
  | error error =>
    rw [made] at run
    cases run
    exact .inl ⟨error, rfl, rfl⟩

end Engine

namespace Book

variable {σ : Type} {handler : Handler σ} {e e' : Engine σ} {book book' : Book}

/-- A record that compiles is made into a rule that is activated. -/
theorem add_cases {record : RuleRecord} {result : Except ScriptError ListenerId}
    (run : book.add handler record e = some ((result, book'), e')) :
    (∃ error, result = .error error ∧ book' = book ∧ e' = e) ∨
    ∃ rule activated, Rule.ofRecord (e.scope book.host) record = .ok rule ∧
      Engine.activate handler (e.addListener (.rule rule)).1 (e.addListener (.rule rule)).2 =
        some (activated, e') ∧
      book' = { book with rules := book.rules ++ [(e.addListener (.rule rule)).1] } := by
  obtain ⟨compiled, e₁, compile, rest⟩ := Run.bind_eq_some_iff.1 run
  obtain ⟨error, rfl, rfl⟩ | ⟨rule, made, rfl, rfl⟩ := Engine.compileRule_cases compile
  · cases rest
    exact .inl ⟨error, rfl, rfl, rfl⟩
  · obtain ⟨activated, e₂, activate, finish⟩ := Run.bind_eq_some_iff.1 rest
    refine .inr ⟨rule, activated, made, ?_⟩
    cases activated <;> cases finish <;> exact ⟨activate, rfl⟩

/-- The first record is kept as it is, or made into a rule that is activated. -/
theorem addAll_cons_cases {record : RuleRecord} {records : List RuleRecord}
    (run : book.addAll handler (record :: records) e = some (book', e')) :
    (∃ error, Rule.ofRecord (e.scope book.host) record = .error error ∧
      addAll handler { book with invalid := book.invalid ++ [⟨record, error⟩] } records e =
        some (book', e')) ∨
    ∃ rule result e₁, Rule.ofRecord (e.scope book.host) record = .ok rule ∧
      Engine.activate handler (e.addListener (.rule rule)).1 (e.addListener (.rule rule)).2 =
        some (result, e₁) ∧
      addAll handler { book with rules := book.rules ++ [(e.addListener (.rule rule)).1] } records
        e₁ = some (book', e') := by
  unfold addAll at run
  obtain ⟨compiled, _, compile, rest⟩ := Run.bind_eq_some_iff.1 run
  simp only [Engine.compileRule, Run.get_bind_apply] at compile
  cases made : Rule.ofRecord (e.scope book.host) record with
  | error error =>
    rw [made] at compile
    cases compile
    exact .inl ⟨error, rfl, rest⟩
  | ok rule =>
    rw [made] at compile
    cases compile
    obtain ⟨_, e₁, discarded, rest⟩ := Run.bind_eq_some_iff.1 rest
    have activated : (Engine.activate handler (e.addListener (.rule rule)).1 >>=
        fun _ => pure ()) (e.addListener (.rule rule)).2 = some ((), e₁) := discarded
    obtain ⟨result, _, activate, finish⟩ := Run.bind_eq_some_iff.1 activated
    cases finish
    exact .inr ⟨rule, result, e₁, rfl, activate, rest⟩

/-- A text that can be read is taken in record by record. -/
theorem importText_cases {text : String} {policy : Option ImportPolicy}
    {result : Except ImportError ImportReport}
    (run : book.importText handler text policy e = some ((result, book'), e')) :
    (∃ error, result = .error error ∧ book' = book ∧ e' = e) ∨
    ∃ report, RuleText.read (some (e.scope book.host)) (policy.getD e.config.importPolicy) text =
        .ok report ∧ result = .ok report ∧
      book.addAll handler report.rules e = some (book', e') := by
  simp only [importText, Run.get_bind_apply] at run
  cases imported : RuleText.read (some (e.scope book.host)) (policy.getD e.config.importPolicy)
    text with
  | error error =>
    rw [imported] at run
    cases run
    exact .inl ⟨error, rfl, rfl, rfl⟩
  | ok report =>
    rw [imported] at run
    obtain ⟨_, _, added, finish⟩ := Run.bind_eq_some_iff.1 run
    cases finish
    exact .inr ⟨report, rfl, rfl, added⟩

/-- Rules are dropped from a book after they are deactivated. -/
theorem removeCompleted_cases {number : Nat}
    (run : book.removeCompleted e = some ((number, book'), e')) :
    ∃ completed : ListenerId → Bool,
      (book.rules.filter completed).forM Engine.deactivate e = some (⟨⟩, e') ∧
      book' = { book with rules := book.rules.filter fun id => !completed id } := by
  simp only [removeCompleted, Run.get_bind_apply] at run
  obtain ⟨_, _, ran, finish⟩ := Run.bind_eq_some_iff.1 run
  cases finish
  exact ⟨_, ran, rfl⟩

theorem clear_cases (run : book.clear e = some (book', e')) :
    book.rules.forM Engine.deactivate e = some (⟨⟩, e') ∧
      book' = { book with rules := [], invalid := [] } := by
  obtain ⟨_, _, ran, finish⟩ := Run.bind_eq_some_iff.1 run
  cases finish
  exact ⟨ran, rfl⟩

end Book

namespace Book

open Engine (Keeps keeps_closed)

variable {σ : Type} {e e' : Engine σ} {book book' : Book}

/-- How a book on an engine comes about. The engine may be any; the book is used as its host
pleases; and in between, anything may happen by which no rule is lost. -/
inductive Reached : Engine σ → Book → Prop where
  | new (e : Engine σ) (host : HostId) : Reached e { host }
  | add {e e' : Engine σ} {book book' : Book} {depth : Nat} {record : RuleRecord}
      {result : Except ScriptError ListenerId} : Reached e book →
    book.add (Engine.handle depth) record e = some ((result, book'), e') → Reached e' book'
  | importText {e e' : Engine σ} {book book' : Book} {depth : Nat} {text : String}
      {policy : Option ImportPolicy} {result : Except ImportError ImportReport} : Reached e book →
    book.importText (Engine.handle depth) text policy e = some ((result, book'), e') →
      Reached e' book'
  | tick {e e' : Engine σ} {book : Book} {depth failures : Nat} : Reached e book →
    book.tick (Engine.handle depth) e = some (failures, e') → Reached e' book
  | removeCompleted {e e' : Engine σ} {book book' : Book} {number : Nat} : Reached e book →
    book.removeCompleted e = some ((number, book'), e') → Reached e' book'
  | clear {e e' : Engine σ} {book book' : Book} : Reached e book →
    book.clear e = some (book', e') → Reached e' book'
  | meanwhile {e e' : Engine σ} {book : Book} : Reached e book → Keeps e e' → Reached e' book

/-- The rules of a book are there, and what it keeps as text was read from a text. -/
structure Sound (e : Engine σ) (book : Book) : Prop where
  rules : ∀ id ∈ book.rules, ∃ rule, e.rule? id = some rule
  invalid : ∀ kept ∈ book.invalid, kept.record.IsPlain

namespace Sound

theorem keeps (sound : Sound e book) (keeps : Keeps e e') : Sound e' book where
  invalid := sound.invalid
  rules id member := by
    obtain ⟨rule, found⟩ := sound.rules id member
    obtain ⟨rule', found', _⟩ := keeps id rule found
    exact ⟨rule', found'⟩

theorem addRule (sound : Sound e book) (rule : Rule) :
    Sound (e.addListener (.rule rule)).2
      { book with rules := book.rules ++ [(e.addListener (.rule rule)).1] } where
  invalid := sound.invalid
  rules id member := by
    rcases List.mem_append.1 member with old | new
    · exact (sound.keeps (.addListener e _)).rules id old
    · cases List.mem_singleton.1 new
      exact ⟨rule, by rw [Engine.rule?_addListener, if_pos rfl]⟩

theorem addInvalid (sound : Sound e book) {record : RuleRecord} (plain : record.IsPlain)
    (error : ScriptError) : Sound e { book with invalid := book.invalid ++ [⟨record, error⟩] } where
  rules := sound.rules
  invalid kept member := by
    rcases List.mem_append.1 member with old | new
    · exact sound.invalid kept old
    · cases List.mem_singleton.1 new
      exact plain

theorem add (sound : Sound e book) {depth : Nat} {record : RuleRecord}
    {result : Except ScriptError ListenerId}
    (run : book.add (Engine.handle depth) record e = some ((result, book'), e')) :
    Sound e' book' := by
  obtain ⟨_, _, rfl, rfl⟩ | ⟨rule, _, _, activate, rfl⟩ := add_cases run
  · exact sound
  · exact (sound.addRule rule).keeps
      (keeps_closed.activate (keeps_closed.handle depth) _ _ _ _ activate)

theorem addAll {depth : Nat} {records : List RuleRecord}
    (plain : ∀ record ∈ records, record.IsPlain) (sound : Sound e book)
    (run : book.addAll (Engine.handle depth) records e = some (book', e')) : Sound e' book' := by
  induction records generalizing e book with
  | nil =>
    cases run
    exact sound
  | cons record records ih =>
    have rest := fun record member => plain record (List.mem_cons_of_mem _ member)
    obtain ⟨error, _, added⟩ | ⟨rule, _, e₁, _, activate, added⟩ := addAll_cons_cases run
    · exact ih rest (sound.addInvalid (plain record (by simp)) error) added
    · have keeps := keeps_closed.activate (keeps_closed.handle depth) _ _ _ _ activate
      exact ih rest ((sound.addRule rule).keeps keeps) added

theorem importText (sound : Sound e book) {depth : Nat} {text : String}
    {policy : Option ImportPolicy} {result : Except ImportError ImportReport}
    (run : book.importText (Engine.handle depth) text policy e = some ((result, book'), e')) :
    Sound e' book' := by
  obtain ⟨_, _, rfl, rfl⟩ | ⟨report, imported, _, added⟩ := importText_cases run
  · exact sound
  · exact sound.addAll (RuleText.isPlain_of_read imported) added

theorem filter (sound : Sound e book) (p : ListenerId → Bool) :
    Sound e { book with rules := book.rules.filter p } where
  invalid := sound.invalid
  rules id member := sound.rules id (List.mem_of_mem_filter member)

end Sound

theorem keeps_tick {depth failures : Nat}
    (run : book.tick (Engine.handle depth) e = some (failures, e')) : Keeps e e' :=
  keeps_closed.tick depth book.rules _ _ _ run

theorem keeps_deactivateAll (ids : List ListenerId) :
    Engine.Across (Keeps (σ := σ)) (ids.forM Engine.deactivate) :=
  keeps_closed.forM keeps_closed.deactivate ids

theorem Reached.sound (reached : Reached e book) : Sound e book := by
  induction reached with
  | new => exact ⟨by simp, by simp⟩
  | add _ run sound => exact sound.add run
  | importText _ run sound => exact sound.importText run
  | tick _ run sound => exact sound.keeps (keeps_tick run)
  | removeCompleted _ run sound =>
    obtain ⟨_, ran, rfl⟩ := removeCompleted_cases run
    exact (sound.filter _).keeps (keeps_deactivateAll _ _ _ _ ran)
  | clear _ run sound =>
    obtain ⟨_, rfl⟩ := clear_cases run
    exact ⟨by simp, by simp⟩
  | meanwhile _ keeps sound => exact sound.keeps keeps

theorem Sound.exists_rules (sound : Sound e book) :
    ∃ rules : List Rule, book.rules.map e.rule? = rules.map some ∧
      book.records e = rules.map Rule.toRecord ++ book.invalid.map InvalidRule.record := by
  have found : ∀ ids : List ListenerId, (∀ id ∈ ids, ∃ rule, e.rule? id = some rule) →
      ∃ rules : List Rule, ids.map e.rule? = rules.map some ∧ ids.filterMap e.rule? = rules := by
    intro ids there
    induction ids with
    | nil => exact ⟨[], rfl, rfl⟩
    | cons id ids ih =>
      obtain ⟨rule, found⟩ := there id (by simp)
      obtain ⟨rules, mapped, rfl⟩ := ih fun id member => there id (List.mem_cons_of_mem _ member)
      exact ⟨rule :: ids.filterMap e.rule?, by simp [found, mapped], by simp [found]⟩
  obtain ⟨rules, mapped, rfl⟩ := found book.rules sound.rules
  exact ⟨_, mapped, rfl⟩

/-- What a book exports is read as the records of its rules, in their order, and behind them those
that it keeps as text, if no value of a rule has a line feed inside. -/
theorem Reached.read_exportText (reached : Reached e book) (policy : ImportPolicy)
    (oneLine : ∀ id ∈ book.rules, ∀ rule, e.rule? id = some rule → rule.exported.OneLine) :
    ∃ rules : List Rule, book.rules.map e.rule? = rules.map some ∧
      RuleText.read none policy (book.exportText e) =
        .ok ⟨rules.map Rule.exported ++ book.invalid.map InvalidRule.record, 0⟩ := by
  have sound := reached.sound
  obtain ⟨rules, mapped, records⟩ := sound.exists_rules
  have invalid : (book.invalid.map InvalidRule.record).map RuleRecord.tidied =
      book.invalid.map InvalidRule.record := by
    rw [List.map_map]
    exact List.map_congr_left fun kept member => (sound.invalid kept member).tidied_eq
  have exported : (rules.map Rule.toRecord).map RuleRecord.tidied = rules.map Rule.exported := by
    rw [List.map_map]
    exact List.map_congr_left fun rule _ => rule.tidied_toRecord
  have plain : ∀ record ∈ book.records e, record.tidied.IsPlain := by
    intro record member
    rw [records] at member
    rcases List.mem_append.1 member with ofRule | ofInvalid
    · obtain ⟨rule, there, rfl⟩ := List.mem_map.1 ofRule
      obtain ⟨id, listed, found⟩ : ∃ id ∈ book.rules, e.rule? id = some rule :=
        List.mem_map.1 (mapped ▸ List.mem_map_of_mem there)
      rw [rule.tidied_toRecord]
      exact Rule.isPlain_exported (oneLine id listed rule found)
    · obtain ⟨kept, there, rfl⟩ := List.mem_map.1 ofInvalid
      rw [(sound.invalid kept there).tidied_eq]
      exact sound.invalid kept there
  refine ⟨rules, mapped, ?_⟩
  rw [exportText, RuleText.read_render plain policy, records, List.map_append, exported, invalid]

/-- A rule for a template without a name, with white space around its precondition. -/
def unnamed : RuleRecord where
  condition := "(gt (sig Debug.Ticker) 200)"
  action := "(act Debug.Log 'late')"
  template := some ""
  precondition := some " (gt 1 0) "

theorem exists_reached_unnamed : ∃ (e : Engine Unit) (book : Book), Reached e book ∧
    book = { host := ⟨1⟩, rules := [⟨1⟩] } ∧
      (e.rule? ⟨1⟩).map Rule.toRecord = some unnamed ∧
      (e.rule? ⟨1⟩).map Rule.exported = some unnamed.tidied ∧
      (RuleText.read none .strict (book.exportText e)).toOption = some ⟨[unnamed.tidied], 0⟩ := by
  have known :
      (Book.add (Engine.handle 2) { host := ⟨1⟩ } unnamed (Engine.create {} ())).map (fun answer =>
        (answer.1.2, (answer.2.rule? ⟨1⟩).map Rule.toRecord,
          (answer.2.rule? ⟨1⟩).map Rule.exported,
          (RuleText.read none .strict (answer.1.2.exportText answer.2)).toOption)) =
      some ({ host := ⟨1⟩, rules := [⟨1⟩] }, some unnamed, some unnamed.tidied,
        some ⟨[unnamed.tidied], 0⟩) := by
    decide +kernel
  obtain ⟨⟨⟨result, book⟩, e⟩, run, same⟩ := Option.map_eq_some_iff.1 known
  simp only [Prod.mk.injEq] at same
  obtain ⟨rfl, record, exported, read⟩ := same
  exact ⟨e, _, .add (.new _ _) run, rfl, record, exported, read⟩

theorem read_exportText_of_unnamed : ∃ (e : Engine Unit) (book : Book) (rule : Rule),
    Reached e book ∧ book.rules.map e.rule? = [some rule] ∧ rule.toRecord = unnamed ∧
      RuleText.read none .strict (book.exportText e) =
        .ok ⟨[⟨unnamed.condition, unnamed.action, none, some "(gt 1 0)"⟩], 0⟩ := by
  obtain ⟨e, book, reached, rfl, record, exported, _⟩ := exists_reached_unnamed
  obtain ⟨rule, found, record⟩ := Option.map_eq_some_iff.1 record
  obtain ⟨rule', found', exported⟩ := Option.map_eq_some_iff.1 exported
  obtain rfl := Option.some.inj (found.symm.trans found')
  obtain ⟨rules, mapped, read⟩ := reached.read_exportText .strict (by
    intro id listed rule' found'
    cases List.mem_singleton.1 listed
    obtain rfl := Option.some.inj (found.symm.trans found')
    rw [exported]
    unfold RuleRecord.OneLine
    decide +kernel)
  simp only [List.map_cons, List.map_nil, found] at mapped
  obtain rfl : [rule] = rules := List.map_injective_iff.2 (fun _ _ => Option.some.inj) mapped
  have tidied : unnamed.tidied = ⟨unnamed.condition, unnamed.action, none, some "(gt 1 0)"⟩ := by
    decide +kernel
  refine ⟨e, _, rule, reached, by simp [found], record, ?_⟩
  rw [read, List.map_cons, exported, tidied]
  rfl

/-- A book need not come back as it is. -/
theorem not_read_exportText_same :
    ¬∀ (e : Engine Unit) (book : Book), Reached e book →
      RuleText.read none .strict (book.exportText e) = .ok ⟨book.records e, 0⟩ := by
  intro claimed
  obtain ⟨e, book, reached, rfl, record, _, read⟩ := exists_reached_unnamed
  obtain ⟨rule, found, record⟩ := Option.map_eq_some_iff.1 record
  have same := congrArg Except.toOption (claimed e _ reached)
  rw [read] at same
  simp only [Except.toOption, records, List.filterMap_cons, found, List.filterMap_nil,
    List.map_cons, record, List.map_nil, List.append_nil, Option.some.injEq, ImportReport.mk.injEq,
    List.cons.injEq] at same
  exact absurd same.1.1 (by decide +kernel)

end Book

end SignalRules
