import SignalRules.Proofs.Grammar
import SignalRules.RuleText.Import

/-! # Rendered rules

Rule text that was rendered from records is read as these records, each of them tidied: values are
trimmed, and an optional one that is blank is gone. All that this takes is that conditions and
actions are not blank and that no value runs over the end of its line; and every record that is read
from a text, whatever the text is, is of this kind.
-/

namespace SignalRules

namespace Text

open Sexp (Stops dropWhile_append_stops stops_dropWhile)

/-! ## Trimmed texts -/

theorem stops_reverse_trim (cs : List Char) : Stops isBlank (trim cs).reverse := by
  rw [trim, List.reverse_reverse]
  exact stops_dropWhile isBlank _

theorem stops_trim (cs : List Char) : Stops isBlank (trim cs) := by
  intro c first
  apply stops_dropWhile isBlank cs c
  -- trimming at the end leaves the front alone, if it leaves anything
  obtain ⟨blanks, whole⟩ := List.dropWhile_suffix (l := (cs.dropWhile isBlank).reverse) isBlank
  have split : cs.dropWhile isBlank = trim cs ++ blanks.reverse := by
    rw [trim, ← List.reverse_append, whole, List.reverse_reverse]
  rw [split, List.head?_append]
  rw [Option.mem_def.1 first]
  rfl

theorem trim_of_stops {cs : List Char} (front : Stops isBlank cs)
    (back : Stops isBlank cs.reverse) : trim cs = cs := by
  have front := @dropWhile_append_stops isBlank [] cs nofun front
  have back := @dropWhile_append_stops isBlank [] cs.reverse nofun back
  rw [List.nil_append] at front back
  rw [trim, front, back, List.reverse_reverse]

theorem trim_trim (cs : List Char) : trim (trim cs) = trim cs :=
  trim_of_stops (stops_trim cs) (stops_reverse_trim cs)

theorem trim_cons {c : Char} (blank : isBlank c = true) (cs : List Char) :
    trim (c :: cs) = trim cs := by
  rw [trim, trim, List.dropWhile_cons_of_pos blank]

theorem trim_subset (cs : List Char) : trim cs ⊆ cs := by
  intro c member
  have inside := (List.dropWhile_suffix isBlank).subset (List.mem_reverse.1 member)
  exact (List.dropWhile_suffix isBlank).subset (List.mem_reverse.1 inside)

/-- The text trimmed, if anything is left of it. -/
def tidied? (text : String) : Option String :=
  if (trim text.toList).isEmpty then none else some (trimmed text)

end Text

/-! ## Values -/

namespace RuleText

/-- What can stand behind a key: something without blank ends, in one line. -/
structure IsValue (value : List Char) : Prop where
  nonempty : value ≠ []
  trimmed : Text.trim value = value
  oneLine : '\n' ∉ value

end RuleText

namespace RuleRecord

open RuleText (IsValue)

/-- The record as rule text has it: without white space at the ends of its values, and without
optional values that are blank. -/
def tidied (record : RuleRecord) : RuleRecord where
  condition := Text.trimmed record.condition
  action := Text.trimmed record.action
  template := record.template.bind Text.tidied?
  precondition := record.precondition.bind Text.tidied?

/-- Every value can stand behind a key. -/
structure IsPlain (record : RuleRecord) : Prop where
  condition : IsValue record.condition.toList
  action : IsValue record.action.toList
  template : ∀ text ∈ record.template, IsValue text.toList
  precondition : ∀ text ∈ record.precondition, IsValue text.toList

theorem trimmed_eq {text : String} (isValue : IsValue text.toList) : Text.trimmed text = text := by
  rw [Text.trimmed, isValue.trimmed, String.ofList_toList]

theorem tidied?_bind_eq {optional : Option String}
    (isValue : ∀ text ∈ optional, IsValue text.toList) :
    optional.bind Text.tidied? = optional := by
  cases optional with
  | none => rfl
  | some text =>
    have isValue := isValue text rfl
    have visible : (Text.trim text.toList).isEmpty = false := by
      rw [isValue.trimmed, List.isEmpty_eq_false_iff]
      exact isValue.nonempty
    simp [Text.tidied?, visible, trimmed_eq isValue]

theorem IsPlain.tidied_eq {record : RuleRecord} (plain : record.IsPlain) :
    record.tidied = record := by
  simp only [tidied, trimmed_eq plain.condition, trimmed_eq plain.action,
    tidied?_bind_eq plain.template, tidied?_bind_eq plain.precondition]

end RuleRecord

/-! ## Lines -/

namespace RuleField

/-- The line of a field, up to its end. -/
def entry (field : RuleField) (value : List Char) : List Char :=
  field.key.toList ++ ':' :: ' ' :: value

theorem line_append (field : RuleField) (value rest : List Char) :
    field.line value ++ rest = field.entry value ++ '\n' :: rest := by
  simp [line, entry]

end RuleField

namespace RuleText

open Sexp (Stops)

theorem lines_append {cs : List Char} (oneLine : '\n' ∉ cs) (rest : List Char) :
    lines (cs ++ '\n' :: rest) = cs :: lines rest := by
  induction cs with
  | nil => simp [lines]
  | cons c cs ih =>
    rw [List.mem_cons, not_or] at oneLine
    rw [List.cons_append, lines, if_neg (Ne.symm oneLine.1), ih oneLine.2]

theorem lines_line {field : RuleField} {value : List Char} (isValue : IsValue value)
    (rest : List Char) : lines (field.line value ++ rest) = field.entry value :: lines rest := by
  rw [field.line_append]
  apply lines_append
  have key : '\n' ∉ field.key.toList := by cases field <;> decide
  simp [RuleField.entry, key, isValue.oneLine]

theorem trim_entry (field : RuleField) {value : List Char} (isValue : IsValue value) :
    Text.trim (field.entry value) = field.entry value := by
  apply Text.trim_of_stops
  · intro c first
    cases field <;> simp [RuleField.entry, RuleField.key] at first <;> subst first <;> decide
  · intro c last
    have stops := Text.stops_reverse_trim value
    rw [isValue.trimmed] at stops
    apply stops c
    obtain ⟨last', same⟩ := Option.ne_none_iff_exists'.1
      (mt List.head?_eq_none_iff.1 (mt List.reverse_eq_nil_iff.1 isValue.nonempty))
    simp [RuleField.entry, same] at last ⊢
    exact last

/-- No comment starts with the line of a field. -/
theorem strip_entry (field : RuleField) {value : List Char} (isValue : IsValue value)
    (number : Nat) :
    strip none number (field.entry value) = (none, .text (field.entry value)) := by
  have nonempty : (field.entry value).isEmpty = false := by cases field <;> rfl
  have noBlock : (blockComments.find? fun tags => tags.1.isPrefixOf (field.entry value)) = none := by
    cases field <;> rfl
  have noComment : (lineComments.any (·.isPrefixOf (field.entry value))) = false := by
    cases field <;> rfl
  simp [strip, trim_entry field isValue, nonempty, stripFront, noBlock, content, noComment]

theorem readEntry_entry (field : RuleField) {value : List Char} (isValue : IsValue value) :
    readEntry (field.entry value) = .ok (field, String.ofList value) := by
  have key : ∀ c ∈ field.key.toList, (c != ':') = true :=
    List.all_eq_true.1 (by cases field <;> rfl)
  have colon : Stops (· != ':') (':' :: ' ' :: value) := by
    rintro _ ⟨⟩
    rfl
  have trimmedKey : Text.trim field.key.toList = field.key.toList := by cases field <;> decide
  have known : RuleField.ofKey? field.key.toList = some field := by cases field <;> decide
  have trimmedValue : Text.trim (' ' :: value) = value := by
    rw [Text.trim_cons (by decide), isValue.trimmed]
  rw [readEntry, RuleField.entry, Sexp.dropWhile_append_stops key colon,
    Sexp.takeWhile_append_stops key colon]
  simp [trimmedKey, trimmedValue, isValue.nonempty, known]

/-! ## Blocks -/

section

variable {draft draft' : Draft} {number : Nat} {field : RuleField} {value : List Char}

theorem scanLines_line (isValue : IsValue value)
    (added : draft.add number field (String.ofList value) = .ok (draft', none))
    (rest : List Char) :
    scanLines none draft number (lines (field.line value ++ rest)) =
      scanLines none draft' (number + 1) (lines rest) := by
  rw [lines_line isValue, scanLines, strip_entry field isValue]
  simp [readEntry_entry field isValue, added]

theorem scanLines_lastLine {rule : Located} (isValue : IsValue value)
    (added : draft.add number field (String.ofList value) = .ok (draft', some rule))
    (rest : List Char) :
    scanLines none draft number (lines (field.line value ++ rest)) =
      (rule :: (scanLines none draft' (number + 1) (lines rest)).1,
        (scanLines none draft' (number + 1) (lines rest)).2) := by
  rw [lines_line isValue, scanLines, strip_entry field isValue]
  simp [readEntry_entry field isValue, added]

end

theorem lineIfAny_of_none {field : RuleField} {optional : Option String}
    (gone : optional.bind Text.tidied? = none) : field.lineIfAny optional = [] := by
  cases optional with
  | none => rfl
  | some text =>
    rw [Option.bind_some, Text.tidied?] at gone
    split at gone
    · rename_i blank
      simp [RuleField.lineIfAny, blank]
    · cases gone

theorem lineIfAny_of_some {field : RuleField} {optional : Option String} {text : String}
    (left : optional.bind Text.tidied? = some text) :
    field.lineIfAny optional = field.line text.toList := by
  cases optional with
  | none => cases left
  | some written =>
    rw [Option.bind_some, Text.tidied?] at left
    split at left
    · cases left
    · rename_i visible
      cases left
      simp [RuleField.lineIfAny, visible, Text.trimmed]

theorem scanLines_template {template : Option String}
    (isValue : ∀ text ∈ template.bind Text.tidied?, IsValue text.toList) (number : Nat)
    (rest : List Char) :
    ∃ next, scanLines none .empty number (lines (RuleField.template.lineIfAny template ++ rest)) =
      scanLines none { template := template.bind Text.tidied? } next (lines rest) := by
  cases left : template.bind Text.tidied? with
  | none =>
    rw [lineIfAny_of_none left]
    exact ⟨number, rfl⟩
  | some text =>
    rw [lineIfAny_of_some left]
    exact ⟨_, scanLines_line (isValue text left) (by rw [String.ofList_toList]; rfl) rest⟩

theorem scanLines_precondition {precondition : Option String}
    (isValue : ∀ text ∈ precondition.bind Text.tidied?, IsValue text.toList)
    (template : Option String) (number : Nat) (rest : List Char) :
    ∃ located next, located.map Prod.snd = precondition.bind Text.tidied? ∧
      scanLines none { template } number
          (lines (RuleField.precondition.lineIfAny precondition ++ rest)) =
        scanLines none { template, precondition := located } next (lines rest) := by
  cases left : precondition.bind Text.tidied? with
  | none =>
    rw [lineIfAny_of_none left]
    exact ⟨none, number, rfl, rfl⟩
  | some text =>
    rw [lineIfAny_of_some left]
    exact ⟨some (number, text), _, rfl,
      scanLines_line (isValue text left) (by rw [String.ofList_toList]; rfl) rest⟩

theorem scanLines_block {record : RuleRecord} (plain : record.tidied.IsPlain) (number : Nat)
    (rest : List Char) :
    ∃ rule next, rule.record = record.tidied ∧
      scanLines none .empty number (lines (record.block ++ rest)) =
        (rule :: (scanLines none .empty next (lines rest)).1,
          (scanLines none .empty next (lines rest)).2) := by
  have condition : IsValue (Text.trim record.condition.toList) := by
    simpa [RuleRecord.tidied, Text.trimmed] using plain.condition
  have action : IsValue (Text.trim record.action.toList) := by
    simpa [RuleRecord.tidied, Text.trimmed] using plain.action
  obtain ⟨second, afterTemplate⟩ := scanLines_template plain.template number
    (RuleField.precondition.lineIfAny record.precondition ++
      (RuleField.condition.line (Text.trim record.condition.toList) ++
        (RuleField.action.line (Text.trim record.action.toList) ++ rest)))
  obtain ⟨precondition, third, located, afterPrecondition⟩ :=
    scanLines_precondition plain.precondition (record.template.bind Text.tidied?) second
      (RuleField.condition.line (Text.trim record.condition.toList) ++
        (RuleField.action.line (Text.trim record.action.toList) ++ rest))
  have afterCondition := @scanLines_line
    { template := record.template.bind Text.tidied?, precondition } _ third .condition _ condition
    rfl (RuleField.action.line (Text.trim record.action.toList) ++ rest)
  have afterAction := @scanLines_lastLine
    { template := record.template.bind Text.tidied?, precondition,
      condition := some (third, Text.trimmed record.condition) } _ (third + 1) .action _ _ action
    rfl rest
  rw [RuleRecord.block, List.append_assoc, List.append_assoc, List.append_assoc, afterTemplate,
    afterPrecondition, afterCondition]
  exact ⟨_, _, by simp [RuleRecord.tidied, located, Text.trimmed], afterAction⟩

theorem scanLines_blocks {records : List RuleRecord}
    (plain : ∀ record ∈ records, record.tidied.IsPlain) (number : Nat) :
    ∃ rules, rules.map Located.record = records.map RuleRecord.tidied ∧
      scanLines none .empty number (lines (RuleRecord.blocks records)) = (rules, none) := by
  induction records generalizing number with
  | nil => exact ⟨[], rfl, rfl⟩
  | cons record records ih =>
    have first := plain record (by simp)
    have rest := fun record member => plain record (List.mem_cons_of_mem _ member)
    cases records with
    | nil =>
      obtain ⟨rule, next, same, scanned⟩ := scanLines_block first number []
      refine ⟨[rule], by simp [same], ?_⟩
      rw [RuleRecord.blocks, ← List.append_nil record.block, scanned]
      rfl
    | cons record' records =>
      obtain ⟨rule, next, same, scanned⟩ :=
        scanLines_block first number ('\n' :: RuleRecord.blocks (record' :: records))
      -- the empty line between two blocks comes when none is open
      have between : scanLines none .empty next
          (lines ('\n' :: RuleRecord.blocks (record' :: records))) =
            scanLines none .empty (next + 1) (lines (RuleRecord.blocks (record' :: records))) := rfl
      obtain ⟨rules, sameRest, scannedRest⟩ := ih rest (next + 1)
      refine ⟨rule :: rules, by rw [List.map_cons, List.map_cons, same, sameRest], ?_⟩
      rw [RuleRecord.blocks, scanned, between, scannedRest]
      exact List.cons_ne_nil _ _

/-- Rendered records are read, whatever the policy, as what they are once they are tidied. -/
theorem read_render {records : List RuleRecord}
    (plain : ∀ record ∈ records, record.tidied.IsPlain) (policy : ImportPolicy) :
    read none policy (RuleRecord.render records) = .ok ⟨records.map RuleRecord.tidied, 0⟩ := by
  obtain ⟨rules, same, scanned⟩ := scanLines_blocks plain 1
  rw [read, scan, RuleRecord.render, String.toList_ofList, scanned]
  simp [select, same]

/-! ## What is read is plain -/

theorem oneLine_of_mem_lines : ∀ {cs line : List Char}, line ∈ lines cs → '\n' ∉ line
  | [], _, member => by simp [lines] at member
  | c :: cs, line, member => by
    rw [lines] at member
    split at member
    · rcases List.mem_cons.1 member with rfl | inRest
      · simp
      · exact oneLine_of_mem_lines inRest
    · rename_i other
      split at member
      · cases List.mem_singleton.1 member
        simpa using Ne.symm other
      · rename_i first rest same
        rcases List.mem_cons.1 member with rfl | inRest
        · have firstLine : '\n' ∉ first := oneLine_of_mem_lines (by rw [same]; simp)
          simpa using ⟨Ne.symm other, firstLine⟩
        · exact oneLine_of_mem_lines (by rw [same]; exact List.mem_cons_of_mem _ inRest)

theorem subset_of_after? {tag : List Char} : ∀ {cs rest : List Char},
    after? tag cs = some rest → rest ⊆ cs
  | [], rest, found => by
    rw [after?] at found
    split at found <;> cases found
    exact List.Subset.refl _
  | c :: cs, rest, found => by
    rw [after?] at found
    split at found
    · cases found
      exact List.drop_subset _ _
    · exact List.Subset.trans (subset_of_after? found) (List.subset_cons_self c cs)

theorem subset_of_content {cs line : List Char} (text : content cs = .text line) : line ⊆ cs := by
  unfold content at text
  split at text
  · cases text
  · cases text
    exact List.Subset.refl _

theorem subset_of_stripFront {number : Nat} {cs line : List Char} {opened : Option OpenComment}
    (text : stripFront number cs = (opened, .text line)) : line ⊆ cs := by
  unfold stripFront at text
  split at text
  · exact subset_of_content (Prod.mk.inj text).2
  · split at text
    · cases text
    · rename_i rest found
      have inside : rest ⊆ cs := List.Subset.trans (subset_of_after? found) (List.drop_subset _ _)
      exact List.Subset.trans (subset_of_content (Prod.mk.inj text).2)
        (List.Subset.trans (Text.trim_subset rest) inside)

/-- What a line has to say stands on it. -/
theorem subset_of_strip {before after : Option OpenComment} {number : Nat} {raw line : List Char}
    (text : strip before number raw = (after, .text line)) : line ⊆ raw := by
  unfold strip at text
  simp only at text
  split at text
  · split at text
    · cases text
    · rename_i rest found
      have inside : rest ⊆ raw := List.Subset.trans (subset_of_after? found) (Text.trim_subset raw)
      exact List.Subset.trans (subset_of_stripFront text)
        (List.Subset.trans (Text.trim_subset rest) inside)
  · split at text
    · cases text
    · exact List.Subset.trans (subset_of_stripFront text) (Text.trim_subset raw)

theorem isValue_of_readEntry {line : List Char} {field : RuleField} {value : String}
    (oneLine : '\n' ∉ line) (entry : readEntry line = .ok (field, value)) :
    IsValue value.toList := by
  unfold readEntry at entry
  split at entry
  · cases entry
  · rename_i colon rest found
    simp only at entry
    split at entry
    · cases entry
    · rename_i visible
      split at entry
      · cases entry
      · cases entry
        have inside : Text.trim rest ⊆ line := by
          have suffix := List.dropWhile_suffix (l := line) (· != ':')
          rw [found] at suffix
          exact List.Subset.trans (Text.trim_subset rest)
            (List.Subset.trans (List.subset_cons_self colon rest) suffix.subset)
        rw [String.toList_ofList]
        exact ⟨by simpa using visible, Text.trim_trim rest, fun member => oneLine (inside member)⟩

/-- Every value that a block has so far can stand behind a key. -/
structure Draft.IsPlain (draft : Draft) : Prop where
  template : ∀ text ∈ draft.template, IsValue text.toList
  precondition : ∀ located ∈ draft.precondition, IsValue located.2.toList
  condition : ∀ located ∈ draft.condition, IsValue located.2.toList

theorem Draft.isPlain_empty : Draft.empty.IsPlain :=
  ⟨nofun, nofun, nofun⟩

theorem Draft.IsPlain.add {draft draft' : Draft} {number : Nat} {field : RuleField}
    {value : String} {rule? : Option Located} (plain : draft.IsPlain)
    (isValue : IsValue value.toList) (added : draft.add number field value = .ok (draft', rule?)) :
    draft'.IsPlain ∧ ∀ rule ∈ rule?, rule.record.IsPlain := by
  unfold Draft.add at added
  split at added
  · split at added
    · cases added
      exact ⟨{ plain with template := by rintro _ ⟨⟩; exact isValue }, nofun⟩
    · cases added
  · split at added
    · cases added
    · cases added
      exact ⟨{ plain with precondition := by rintro _ ⟨⟩; exact isValue }, nofun⟩
  · split at added
    · cases added
    · cases added
      exact ⟨{ plain with condition := by rintro _ ⟨⟩; exact isValue }, nofun⟩
  · split at added
    · cases added
    · rename_i line condition given
      cases added
      refine ⟨isPlain_empty, ?_⟩
      rintro _ ⟨⟩
      refine ⟨plain.condition _ given, isValue, plain.template, ?_⟩
      intro text found
      obtain ⟨located, given, rfl⟩ := Option.map_eq_some_iff.1 found
      exact plain.precondition located given

theorem isPlain_of_scanLines {opened : Option OpenComment} {draft : Draft} {number : Nat}
    {raws : List (List Char)} (plain : draft.IsPlain) (oneLine : ∀ raw ∈ raws, '\n' ∉ raw) :
    ∀ rule ∈ (scanLines opened draft number raws).1, rule.record.IsPlain := by
  induction raws generalizing opened draft number with
  | nil => cases opened <;> exact nofun
  | cons raw raws ih =>
    have rest := fun raw member => oneLine raw (List.mem_cons_of_mem _ member)
    rw [scanLines]
    split
    · exact ih plain rest
    · split
      · exact ih plain rest
      · exact nofun
    · rename_i opened' line stripped
      split
      · exact nofun
      · rename_i field value entry
        have isValue : IsValue value.toList := isValue_of_readEntry
          (fun member => oneLine raw (by simp) (subset_of_strip stripped member)) entry
        split
        · exact nofun
        · rename_i draft' added
          exact ih (plain.add isValue added).1 rest
        · rename_i draft' rule added
          intro other member
          rcases List.mem_cons.1 member with rfl | inRest
          · exact (plain.add isValue added).2 _ rfl
          · exact ih (plain.add isValue added).1 rest other inRest

theorem checkAll_eq_ok {check : Located → Except ImportError Unit} {rules : List Located}
    {records : List RuleRecord} (checked : checkAll check rules = .ok records) :
    records = rules.map Located.record := by
  induction rules generalizing records with
  | nil =>
    cases checked
    rfl
  | cons rule rules ih =>
    unfold checkAll at checked
    split at checked
    · cases checked
    · cases checkedRest : checkAll check rules with
      | error =>
        rw [checkedRest] at checked
        cases checked
      | ok rest =>
        rw [checkedRest] at checked
        cases checked
        rw [List.map_cons, ih checkedRest]

theorem subset_of_select {scope : Option Scope} {policy : ImportPolicy} {rules : List Located}
    {report : ImportReport} (selected : select scope policy rules = .ok report) :
    report.rules ⊆ rules.map Located.record := by
  unfold select at selected
  split at selected
  · unfold Except.map at selected
    split at selected
    · cases selected
    · rename_i records checked
      cases selected
      exact checkAll_eq_ok checked ▸ List.Subset.refl _
  · cases selected
    exact List.map_subset _ List.filter_sublist.subset
  · cases selected
    exact List.Subset.refl _

/-- The records that are read from a text, whatever the text, are plain. -/
theorem isPlain_of_read {scope : Option Scope} {policy : ImportPolicy} {text : String}
    {report : ImportReport} (imported : read scope policy text = .ok report) :
    ∀ record ∈ report.rules, record.IsPlain := by
  unfold read at imported
  simp only at imported
  split at imported
  · cases imported
  · rename_i selection selected
    have same : selection = report := by
      split at imported
      · cases imported
      · exact Except.ok.inj imported
    intro record member
    obtain ⟨rule, scanned, rfl⟩ := List.mem_map.1 (subset_of_select selected (same ▸ member))
    exact isPlain_of_scanLines Draft.isPlain_empty (fun _ => oneLine_of_mem_lines) rule scanned

end RuleText

end SignalRules
