import SignalRules.Proofs.Rendering

/-! # Importing again

What is imported from a text, whatever the text looks like, can be rendered and imported again. The
lists of records that come back from what is rendered of them are exactly those in which every value
stands trimmed on a line of its own; characters that mark keys and comments make no difference inside
a value. Where the scripts of the rules are compiled on the way in, they are on the way back.
-/

namespace SignalRules

/-- All scripts of the record compile. -/
def RuleRecord.compiles (scope : Scope) (record : RuleRecord) : Bool :=
  (record.precondition.all fun script => (scope.parseCondition script).isOk)
    && (scope.parseCondition record.condition).isOk && (scope.parseCall record.action).isOk

namespace RuleText

/-! ## Scripts and their lines -/

/-- The line of the precondition is known if there is one. -/
def Located.IsWhole (rule : Located) : Prop :=
  rule.preconditionLine.isSome = rule.record.precondition.isSome

theorem isWhole_of_add {draft draft' : Draft} {number : Nat} {field : RuleField} {value : String}
    {rule : Located} (added : draft.add number field value = .ok (draft', some rule)) :
    rule.IsWhole := by
  unfold Draft.add at added
  split at added
  · split at added <;> cases added
  · split at added <;> cases added
  · split at added <;> cases added
  · split at added
    · cases added
    · cases added
      simp [Located.IsWhole]

theorem isWhole_of_scanLines {opened : Option OpenComment} {draft : Draft} {number : Nat}
    {raws : List (List Char)} :
    ∀ rule ∈ (scanLines opened draft number raws).1, rule.IsWhole := by
  induction raws generalizing opened draft number with
  | nil => cases opened <;> simp [scanLines]
  | cons raw raws ih =>
    rw [scanLines]
    split
    · exact ih
    · split
      · exact ih
      · simp
    · split
      · simp
      · split
        · simp
        · exact ih
        · rename_i draft' rule added
          intro other member
          rcases List.mem_cons.1 member with rfl | later
          · exact isWhole_of_add added
          · exact ih other later

/-- Whether a rule is let through depends on what it says, not on where it stands. -/
theorem isOk_check {rule : Located} (whole : rule.IsWhole) (scope : Scope) :
    (rule.check scope).isOk = rule.record.compiles scope := by
  obtain ⟨⟨condition, action, template, precondition⟩, preconditionLine, _, _⟩ := rule
  unfold Located.check RuleRecord.compiles
  cases precondition with
  | none =>
    cases scope.parseCondition condition <;> cases scope.parseCall action <;> rfl
  | some script =>
    obtain ⟨line, rfl⟩ := Option.isSome_iff_exists.1 whole
    simp only [Option.all_some]
    cases scope.parseCondition script <;> cases scope.parseCondition condition <;>
      cases scope.parseCall action <;> rfl

/-! ## Policies -/

/-- The policy lets the record pass: its scripts compile, unless nobody looks at them. -/
def Passes (scope : Option Scope) (policy : ImportPolicy) (record : RuleRecord) : Prop :=
  ∀ known ∈ scope, policy ≠ .allowErrors → record.compiles known

theorem passes_none (policy : ImportPolicy) (record : RuleRecord) : Passes none policy record :=
  nofun

theorem isOk_of_checkAll {check : Located → Except ImportError Unit} {rules : List Located}
    {records : List RuleRecord} (checked : checkAll check rules = .ok records) :
    ∀ rule ∈ rules, (check rule).isOk := by
  induction rules generalizing records with
  | nil => simp
  | cons rule rules ih =>
    unfold checkAll at checked
    split at checked
    · cases checked
    · rename_i passed
      cases checkedRest : checkAll check rules with
      | error _ =>
        rw [checkedRest] at checked
        cases checked
      | ok rest =>
        intro other member
        rcases List.mem_cons.1 member with rfl | later
        · rw [passed]
          rfl
        · exact ih checkedRest other later

theorem checkAll_of_isOk {check : Located → Except ImportError Unit} {rules : List Located}
    (passed : ∀ rule ∈ rules, (check rule).isOk) :
    checkAll check rules = .ok (rules.map Located.record) := by
  induction rules with
  | nil => rfl
  | cons rule rules ih =>
    unfold checkAll
    have first := passed rule List.mem_cons_self
    split
    · rename_i refused
      rw [refused] at first
      cases first
    · rw [ih fun other member => passed other (List.mem_cons_of_mem _ member)]
      rfl

/-- Whatever is selected passes. -/
theorem passes_of_select {scope : Option Scope} {policy : ImportPolicy} {rules : List Located}
    {report : ImportReport} (whole : ∀ rule ∈ rules, rule.IsWhole)
    (selected : select scope policy rules = .ok report) :
    ∀ record ∈ report.rules, Passes scope policy record := by
  rintro record member known ⟨⟩ looked
  cases policy with
  | allowErrors => exact absurd rfl looked
  | strict =>
    rw [select] at selected
    cases checked : checkAll (Located.check known) rules with
    | error _ =>
      rw [checked] at selected
      cases selected
    | ok records =>
      rw [checked] at selected
      cases selected
      rw [checkAll_eq_ok checked] at member
      obtain ⟨rule, listed, rfl⟩ := List.mem_map.1 member
      rw [← isOk_check (whole rule listed)]
      exact isOk_of_checkAll checked rule listed
  | skipInvalid =>
    cases selected
    obtain ⟨rule, kept, rfl⟩ := List.mem_map.1 member
    obtain ⟨listed, passed⟩ := List.mem_filter.1 kept
    rwa [← isOk_check (whole rule listed)]

/-- Where all pass, all are selected. -/
theorem select_of_passes {scope : Option Scope} {policy : ImportPolicy} {rules : List Located}
    (whole : ∀ rule ∈ rules, rule.IsWhole)
    (passes : ∀ rule ∈ rules, Passes scope policy rule.record) :
    select scope policy rules = .ok ⟨rules.map Located.record, 0⟩ := by
  cases scope with
  | none => cases policy <;> rfl
  | some known =>
    have passed : policy ≠ .allowErrors → ∀ rule ∈ rules, (rule.check known).isOk := by
      intro looked rule listed
      rw [isOk_check (whole rule listed)]
      exact passes rule listed known rfl looked
    cases policy with
    | allowErrors => rfl
    | strict =>
      rw [select, checkAll_of_isOk (passed (by decide))]
      rfl
    | skipInvalid =>
      have all : (rules.filter fun rule => (rule.check known).isOk) = rules :=
        List.filter_eq_self.2 (passed (by decide))
      simp only [select, all, Nat.sub_self]

/-! ## Round trips -/

/-- A text is read if it has no fault and the policy finds none in its rules. -/
theorem read_eq_ok_iff {scope : Option Scope} {policy : ImportPolicy} {text : String}
    {report : ImportReport} : read scope policy text = .ok report ↔
      (scan text).2 = none ∧ select scope policy (scan text).1 = .ok report := by
  unfold read
  simp only
  constructor
  · intro imported
    split at imported
    · cases imported
    · rename_i selected
      split at imported
      · cases imported
      · rename_i sound
        exact ⟨sound, selected.trans imported⟩
  · rintro ⟨sound, selected⟩
    rw [selected, sound]

theorem isWhole_of_scan {text : String} : ∀ rule ∈ (scan text).1, rule.IsWhole :=
  isWhole_of_scanLines

/-- Records come back from what is rendered of them exactly if all their values can stand behind a
key, and the policy lets all of them pass. -/
theorem read_render_eq_iff {scope : Option Scope} {policy : ImportPolicy}
    {records : List RuleRecord} :
    read scope policy (RuleRecord.render records) = .ok ⟨records, 0⟩ ↔
      (∀ record ∈ records, record.IsPlain) ∧ ∀ record ∈ records, Passes scope policy record := by
  constructor
  · intro imported
    have selected := (read_eq_ok_iff.1 imported).2
    exact ⟨isPlain_of_read imported, passes_of_select isWhole_of_scan selected⟩
  · rintro ⟨plain, passes⟩
    have tidied : ∀ record ∈ records, record.tidied = record :=
      fun record member => (plain record member).tidied_eq
    have plainTidied : ∀ record ∈ records, record.tidied.IsPlain := by
      intro record member
      rw [tidied record member]
      exact plain record member
    obtain ⟨rules, same, scanned⟩ := scanLines_blocks plainTidied 1
    rw [List.map_congr_left tidied, List.map_id'] at same
    have found : scan (RuleRecord.render records) = (rules, none) := by
      rw [scan, RuleRecord.render, String.toList_ofList, scanned]
    have whole : ∀ rule ∈ rules, rule.IsWhole := by
      have ofScan := @isWhole_of_scan (RuleRecord.render records)
      rwa [found] at ofScan
    rw [read_eq_ok_iff, found, ← same]
    refine ⟨rfl, select_of_passes whole fun rule listed => ?_⟩
    exact passes rule.record (same ▸ List.mem_map_of_mem listed)

/-- A list of records comes back from its text, whatever the policy, exactly if every value in it is
trimmed, not empty and on one line. All that is ever imported is of this kind, so that it can be
rendered and imported again: by any policy if nothing is compiled, and by its own if something is. -/
theorem rule_text_round_trip :
    (∀ (records : List RuleRecord) (policy : ImportPolicy),
      read none policy (RuleRecord.render records) = .ok ⟨records, 0⟩ ↔
        ∀ record ∈ records, record.IsPlain) ∧
    ∀ {scope : Option Scope} {policy : ImportPolicy} {text : String} {report : ImportReport},
      read scope policy text = .ok report →
        (∀ record ∈ report.rules, record.IsPlain) ∧
        (∀ policy, read none policy (RuleRecord.render report.rules) = .ok ⟨report.rules, 0⟩) ∧
        read scope policy (RuleRecord.render report.rules) = .ok ⟨report.rules, 0⟩ := by
  refine ⟨fun records policy => ?_, fun imported => ?_⟩
  · rw [read_render_eq_iff]
    exact and_iff_left fun record _ => passes_none policy record
  · have plain := isPlain_of_read imported
    have passes := passes_of_select isWhole_of_scan (read_eq_ok_iff.1 imported).2
    refine ⟨plain, fun policy => ?_, ?_⟩
    · exact read_render_eq_iff.2 ⟨plain, fun record _ => passes_none policy record⟩
    · exact read_render_eq_iff.2 ⟨plain, passes⟩

/-- Scripts of a host with one action and no signals. -/
def bell : Scope where
  host := ⟨1⟩
  maxScriptLength := 80
  maxNestingDepth := 8
  signal name := .error (.lookup (.noProvider name))
  source name := .error (.lookup (.noProvider name))
  action name :=
    if name = "Bell.Ring" then .ok ⟨name, "Ring", [.string]⟩ else .error (.lookup (.noProvider name))
  executor _ := .ok ()

/-- Two rules in a careless hand; the second does not compile. -/
def scribble : String :=
  "#| two rules |#  template: # 1:\r/* odd \r\n precondition : 1\n//\ncondition:(gt 1 0)\n" ++
    "action: (act Bell.Ring 'condition: ;')\n\n; and\ncondition: (sig Bell.Rope)\n/* */action: no"

def ringing : RuleRecord where
  condition := "(gt 1 0)"
  action := "(act Bell.Ring 'condition: ;')"
  template := some "# 1:\r/* odd"
  precondition := some "1"

theorem scribble_round_trip :
    read (some bell) .skipInvalid scribble = .ok ⟨[ringing], 1⟩ ∧ ringing.IsPlain ∧
      read none .strict (RuleRecord.render [ringing]) = .ok ⟨[ringing], 0⟩ ∧
      read (some bell) .skipInvalid (RuleRecord.render [ringing]) = .ok ⟨[ringing], 0⟩ := by
  have imported : read (some bell) .skipInvalid scribble = .ok ⟨[ringing], 1⟩ := by decide +kernel
  obtain ⟨plain, unseen, again⟩ := rule_text_round_trip.2 imported
  exact ⟨imported, plain ringing List.mem_cons_self, unseen .strict, again⟩

end RuleText

end SignalRules
