import SignalRules.Proofs.Reimport

/-! # Import policies

The three policies read a text alike and part only over the rules that do not compile. To compile
the rules of a text one by one, each as soon as its block is complete, comes to the same as to scan
the whole text first: what is made of a rule changes nothing in how the lines behind it are read.
-/

namespace SignalRules

namespace RuleText

/-! ## Line by line -/

/-- Where the reading of a text stands between two lines. -/
structure Reading where
  opened : Option OpenComment := none
  draft : Draft := .empty

namespace Reading

/-- Read one more line, which may complete a rule. -/
def next (reading : Reading) (number : Nat) (raw : List Char) :
    Except ImportError (Reading × Option Located) :=
  match strip reading.opened number raw with
  | (opened, .comment) => .ok ({ reading with opened }, none)
  | (opened, .blank) =>
    if reading.draft.isEmpty then .ok ({ reading with opened }, none)
    else .error ⟨number, .unfinished⟩
  | (opened, .text line) =>
    match readEntry line with
    | .error cause => .error ⟨number, cause⟩
    | .ok (field, value) =>
      match reading.draft.add number field value with
      | .error cause => .error ⟨number, cause⟩
      | .ok (draft, rule?) => .ok (⟨opened, draft⟩, rule?)

/-- What is wrong if the text ends in front of the line of this number. -/
def fault? (reading : Reading) (number : Nat) : Option ImportError :=
  match reading.opened with
  | some comment => some ⟨comment.line, .openComment⟩
  | none => if reading.draft.isEmpty then none else some ⟨number - 1, .unfinished⟩

/-- The scan of the lines from this number on. -/
def scan (reading : Reading) (number : Nat) (raws : List (List Char)) :
    List Located × Option ImportError :=
  scanLines reading.opened reading.draft number raws

theorem scan_nil {reading : Reading} {number : Nat} :
    reading.scan number [] = ([], reading.fault? number) := by
  obtain ⟨opened, draft⟩ := reading
  cases opened <;> rfl

theorem scan_cons_of_error {reading : Reading} {number : Nat} {raw : List Char} {e : ImportError}
    (faulty : reading.next number raw = .error e) (raws : List (List Char)) :
    reading.scan number (raw :: raws) = ([], some e) := by
  unfold next at faulty
  rw [scan, scanLines]
  rcases stripped : strip reading.opened number raw with ⟨opened, content⟩
  rw [stripped] at faulty
  cases content with
  | comment => cases faulty
  | blank =>
    simp only at faulty ⊢
    split at faulty <;> cases faulty
    rename_i begun
    simp only [begun, Bool.false_eq_true, ↓reduceIte]
  | text line =>
    simp only at faulty ⊢
    cases entry : readEntry line with
    | error cause =>
      simp only [entry] at faulty ⊢
      cases faulty
      rfl
    | ok parts =>
      obtain ⟨field, value⟩ := parts
      simp only [entry] at faulty ⊢
      cases added : reading.draft.add number field value <;> rw [added] at faulty <;> cases faulty
      rfl

theorem scan_cons_of_ok {reading after : Reading} {number : Nat} {raw : List Char}
    {rule? : Option Located} (read : reading.next number raw = .ok (after, rule?))
    (raws : List (List Char)) :
    reading.scan number (raw :: raws) =
      (rule?.toList ++ (after.scan (number + 1) raws).1, (after.scan (number + 1) raws).2) := by
  unfold next at read
  rw [scan, scanLines]
  rcases stripped : strip reading.opened number raw with ⟨opened, content⟩
  rw [stripped] at read
  cases content with
  | comment =>
    cases read
    rfl
  | blank =>
    simp only at read ⊢
    split at read <;> cases read
    rename_i between
    simp only [between, ↓reduceIte]
    rfl
  | text line =>
    simp only at read ⊢
    cases entry : readEntry line with
    | error cause =>
      rw [entry] at read
      cases read
    | ok parts =>
      obtain ⟨field, value⟩ := parts
      simp only [entry] at read ⊢
      cases added : reading.draft.add number field value <;> rw [added] at read <;> cases read
      rename_i closed
      obtain ⟨_, _ | _⟩ := closed <;> rfl

end Reading

/-! ## One pass -/

/-- Put a complete rule into the report, or leave it out, or give up, as the policy has it. -/
def keepOrSkip (scope : Option Scope) (policy : ImportPolicy) (report : ImportReport)
    (rule : Located) :
    Except ImportError ImportReport :=
  let checked :=
    match scope, policy with
    | some scope, .strict => rule.check scope
    | some scope, .skipInvalid => rule.check scope
    | _, _ => .ok ()
  match checked with
  | .ok _ => .ok { report with rules := report.rules ++ [rule.record] }
  | .error e =>
    if policy = .skipInvalid then .ok { report with skipped := report.skipped + 1 } else .error e

/-- Read the lines from this number on, with each rule handled where its block ends. -/
def importLines (scope : Option Scope) (policy : ImportPolicy) (reading : Reading)
    (report : ImportReport) (number : Nat) : List (List Char) → Except ImportError ImportReport
  | [] =>
    match reading.fault? number with
    | some e => .error e
    | none => .ok report
  | raw :: raws =>
    match reading.next number raw with
    | .error e => .error e
    | .ok (reading, none) => importLines scope policy reading report (number + 1) raws
    | .ok (reading, some rule) =>
      match keepOrSkip scope policy report rule with
      | .error e => .error e
      | .ok report => importLines scope policy reading report (number + 1) raws

/-- The report once all these rules are handled, and then the fault. -/
def settle (scope : Option Scope) (policy : ImportPolicy) (report : ImportReport)
    (scanned : List Located × Option ImportError) : Except ImportError ImportReport :=
  match scanned.1.foldlM (keepOrSkip scope policy) report with
  | .error e => .error e
  | .ok report =>
    match scanned.2 with
    | some e => .error e
    | none => .ok report

theorem settle_cons {scope : Option Scope} {policy : ImportPolicy} {report : ImportReport}
    {rule : Located} {rules : List Located} {fault : Option ImportError} :
    settle scope policy report (rule :: rules, fault) =
      keepOrSkip scope policy report rule >>= fun report =>
        settle scope policy report (rules, fault) := by
  rw [settle, List.foldlM_cons]
  cases keepOrSkip scope policy report rule <;> rfl

theorem importLines_eq_settle {scope : Option Scope} {policy : ImportPolicy} {reading : Reading}
    {report : ImportReport} {number : Nat} {raws : List (List Char)} :
    importLines scope policy reading report number raws =
      settle scope policy report (reading.scan number raws) := by
  induction raws generalizing reading report number with
  | nil =>
    rw [Reading.scan_nil]
    rfl
  | cons raw raws ih =>
    rw [importLines]
    split
    · rename_i faulty
      rw [Reading.scan_cons_of_error faulty]
      rfl
    · rename_i read
      rw [Reading.scan_cons_of_ok read, ih]
      rfl
    · rename_i after rule read
      rw [Reading.scan_cons_of_ok read]
      refine Eq.trans ?_ settle_cons.symm
      cases keepOrSkip scope policy report rule with
      | error => rfl
      | ok report => exact ih

theorem keepOrSkip_of_unseen {scope : Option Scope} {policy : ImportPolicy}
    (unseen : scope = none ∨ policy = .allowErrors) (report : ImportReport) (rule : Located) :
    keepOrSkip scope policy report rule =
      .ok { report with rules := report.rules ++ [rule.record] } := by
  obtain rfl | rfl := unseen
  · rfl
  · cases scope <;> rfl

theorem foldlM_keepOrSkip_of_unseen {scope : Option Scope} {policy : ImportPolicy}
    (unseen : scope = none ∨ policy = .allowErrors) (rules : List Located) (report : ImportReport) :
    rules.foldlM (keepOrSkip scope policy) report =
      .ok { report with rules := report.rules ++ rules.map Located.record } := by
  induction rules generalizing report with
  | nil => simp [pure, Except.pure]
  | cons rule rules ih =>
    rw [List.foldlM_cons, keepOrSkip_of_unseen unseen, List.map_cons]
    refine (ih _).trans ?_
    simp only [List.append_assoc, List.cons_append, List.nil_append]

theorem foldlM_keepOrSkip_skipInvalid (scope : Scope) (rules : List Located)
    (report : ImportReport) :
    rules.foldlM (keepOrSkip (some scope) .skipInvalid) report =
      .ok {
        rules := report.rules ++
          (rules.filter fun rule => (rule.check scope).isOk).map Located.record
        skipped := report.skipped +
          (rules.length - (rules.filter fun rule => (rule.check scope).isOk).length) } := by
  induction rules generalizing report with
  | nil => simp [pure, Except.pure]
  | cons rule rules ih =>
    have fits := List.length_filter_le (fun rule : Located => (rule.check scope).isOk) rules
    rw [List.foldlM_cons, keepOrSkip]
    cases checked : rule.check scope with
    | ok =>
      have passed : (rule.check scope).isOk := by simp [checked, Except.isOk, Except.toBool]
      refine (ih _).trans ?_
      simp [passed]
    | error =>
      have refused : (rule.check scope).isOk = false := by
        simp [checked, Except.isOk, Except.toBool]
      refine (ih _).trans ?_
      simp [refused]
      omega

theorem foldlM_keepOrSkip_strict (scope : Scope) (rules : List Located) (report : ImportReport) :
    rules.foldlM (keepOrSkip (some scope) .strict) report =
      (checkAll (Located.check scope) rules).map fun records =>
        { report with rules := report.rules ++ records } := by
  induction rules generalizing report with
  | nil => simp [checkAll, Except.map, pure, Except.pure]
  | cons rule rules ih =>
    rw [List.foldlM_cons, keepOrSkip, checkAll]
    cases checked : rule.check scope with
    | error => rfl
    | ok =>
      refine (ih _).trans ?_
      cases checkAll (Located.check scope) rules with
      | error => rfl
      | ok => simp [Except.map]

/-- To select among rules is to handle them one after the other. -/
theorem foldlM_keepOrSkip {scope : Option Scope} {policy : ImportPolicy} {rules : List Located} :
    rules.foldlM (keepOrSkip scope policy) ⟨[], 0⟩ = select scope policy rules := by
  cases scope with
  | none =>
    rw [foldlM_keepOrSkip_of_unseen (.inl rfl)]
    cases policy <;> rfl
  | some scope =>
    cases policy with
    | allowErrors => exact foldlM_keepOrSkip_of_unseen (.inr rfl) rules _
    | skipInvalid =>
      rw [foldlM_keepOrSkip_skipInvalid, select]
      simp
    | strict =>
      rw [foldlM_keepOrSkip_strict, select]
      rfl

/-- The text read in one pass. -/
theorem importLines_eq_read {scope : Option Scope} {policy : ImportPolicy} {text : String} :
    importLines scope policy {} ⟨[], 0⟩ 1 (lines text.toList) = read scope policy text := by
  rw [importLines_eq_settle, settle, foldlM_keepOrSkip]
  rfl

/-! ## Findings -/

/-- What a scan comes upon: a rule where its block ends, or the fault at which it stops. -/
inductive Finding where
  | rule (rule : Located)
  | fault (error : ImportError)

def findingsOf (scanned : List Located × Option ImportError) : List Finding :=
  scanned.1.map .rule ++ scanned.2.toList.map .fault

def findings (text : String) : List Finding :=
  findingsOf (scan text)

/-- A page is the lines of a text with their numbers. An entry holds on a line if the line says so
once its comments are taken away. -/
def Holds (page : List (List Char × Nat)) (number : Nat) (field : RuleField) (value : String) :
    Prop :=
  ∃ raw opened line, (raw, number) ∈ page ∧ strip opened number raw = (none, .text line) ∧
    readEntry line = .ok (field, value)

/-- The entries of the rule stand on their lines, in their order and behind the line given. -/
structure Located.Placed (page : List (List Char × Nat)) (front : Nat) (rule : Located) : Prop where
  template : ∀ value ∈ rule.record.template,
    ∃ number, front < number ∧ number < rule.conditionLine ∧ Holds page number .template value
  precondition : ∀ value ∈ rule.record.precondition, ∃ number ∈ rule.preconditionLine,
    front < number ∧ number < rule.conditionLine ∧ Holds page number .precondition value
  condition : front < rule.conditionLine ∧ rule.conditionLine < rule.actionLine ∧
    Holds page rule.conditionLine .condition rule.record.condition
  action : Holds page rule.actionLine .action rule.record.action

/-- The findings stand behind the line given and one behind the other; a fault is the last. -/
inductive InOrder (page : List (List Char × Nat)) : Nat → List Finding → Prop where
  | nil (front : Nat) : InOrder page front []
  | fault {front : Nat} {e : ImportError} (behind : front < e.line) :
      InOrder page front [.fault e]
  | rule {front : Nat} {rule : Located} {findings : List Finding} (placed : rule.Placed page front)
      (rest : InOrder page rule.actionLine findings) : InOrder page front (.rule rule :: findings)

theorem stripFront_cases (number : Nat) (line : List Char) :
    (∃ comment, stripFront number line = (some comment, .comment) ∧ comment.line = number) ∨
      ∃ content, stripFront number line = (none, content) := by
  unfold stripFront
  split
  · exact .inr ⟨_, rfl⟩
  · split
    · exact .inl ⟨_, rfl, rfl⟩
    · exact .inr ⟨_, rfl⟩

/-- A comment that is open behind a line was so in front of it or starts there, and then there is
nothing else on the line. -/
theorem strip_cases (opened : Option OpenComment) (number : Nat) (raw : List Char) :
    (∃ comment, strip opened number raw = (some comment, .comment) ∧
        (opened = some comment ∨ comment.line = number)) ∨
      ∃ content, strip opened number raw = (none, content) := by
  unfold strip
  cases opened with
  | some comment =>
    simp only
    split
    · exact .inl ⟨comment, rfl, .inl rfl⟩
    · rename_i rest _
      obtain ⟨fresh, stripped, line⟩ | closed := stripFront_cases number (Text.trim rest)
      · exact .inl ⟨fresh, stripped, .inr line⟩
      · exact .inr closed
  | none =>
    simp only
    split
    · exact .inr ⟨_, rfl⟩
    · obtain ⟨fresh, stripped, line⟩ | closed := stripFront_cases number (Text.trim raw)
      · exact .inl ⟨fresh, stripped, .inr line⟩
      · exact .inr closed

namespace Reading

/-- A line that is read without fault has no entry, or one for the block. -/
theorem next_cases {reading after : Reading} {number : Nat} {raw : List Char}
    {rule? : Option Located} (read : reading.next number raw = .ok (after, rule?)) :
    (rule? = none ∧ after.draft = reading.draft ∧
        ∀ comment ∈ after.opened, comment ∈ reading.opened ∨ comment.line = number) ∨
      ∃ line field value, strip reading.opened number raw = (none, .text line) ∧
        readEntry line = .ok (field, value) ∧ after.opened = none ∧
        reading.draft.add number field value = .ok (after.draft, rule?) := by
  unfold next at read
  obtain ⟨comment, stripped, started⟩ | ⟨content, stripped⟩ :=
    strip_cases reading.opened number raw
  · rw [stripped] at read
    cases read
    refine .inl ⟨rfl, rfl, ?_⟩
    rintro _ ⟨⟩
    exact started
  · rw [stripped] at read
    cases content with
    | comment =>
      cases read
      exact .inl ⟨rfl, rfl, nofun⟩
    | blank =>
      simp only at read
      split at read <;> cases read
      exact .inl ⟨rfl, rfl, nofun⟩
    | text line =>
      simp only at read
      split at read
      · cases read
      · rename_i field value entry
        split at read <;> cases read
        rename_i added
        exact .inr ⟨line, field, value, stripped, entry, rfl, added⟩

theorem line_of_next {reading : Reading} {number : Nat} {raw : List Char} {e : ImportError}
    (faulty : reading.next number raw = .error e) : e.line = number := by
  unfold next at faulty
  split at faulty
  · cases faulty
  · split at faulty <;> cases faulty
    rfl
  · split at faulty
    · cases faulty
      rfl
    · split at faulty <;> cases faulty
      rfl

/-- Whatever is open stands on the page, between the line given and the one to be read. -/
structure Placed (page : List (List Char × Nat)) (front : Nat) (reading : Reading)
    (number : Nat) : Prop where
  here : front < number
  comment : ∀ comment ∈ reading.opened, front < comment.line
  template : ∀ value ∈ reading.draft.template,
    ∃ line, front < line ∧ line < number ∧ Holds page line .template value ∧
      ∀ condition ∈ reading.draft.condition, line < condition.1
  precondition : ∀ entry ∈ reading.draft.precondition,
    front < entry.1 ∧ entry.1 < number ∧ Holds page entry.1 .precondition entry.2 ∧
      ∀ condition ∈ reading.draft.condition, entry.1 < condition.1
  condition : ∀ entry ∈ reading.draft.condition,
    front < entry.1 ∧ entry.1 < number ∧ Holds page entry.1 .condition entry.2

variable {page : List (List Char × Nat)} {front number : Nat} {reading after : Reading}

theorem Placed.between (here : front < number) : Placed page front ⟨none, .empty⟩ number :=
  ⟨here, nofun, nofun, nofun, nofun⟩

/-- A block that has begun has an entry. -/
theorem Placed.exists_entry (placed : reading.Placed page front number)
    (begun : ¬ reading.draft.isEmpty = true) : ∃ line, front < line ∧ line < number := by
  obtain ⟨opened, template, precondition, condition⟩ := reading
  cases template with
  | some value =>
    obtain ⟨line, behind, before, -⟩ := placed.template value rfl
    exact ⟨line, behind, before⟩
  | none =>
    cases precondition with
    | some entry =>
      obtain ⟨behind, before, -⟩ := placed.precondition entry rfl
      exact ⟨entry.1, behind, before⟩
    | none =>
      cases condition with
      | some entry =>
        obtain ⟨behind, before, -⟩ := placed.condition entry rfl
        exact ⟨entry.1, behind, before⟩
      | none => exact absurd rfl begun

/-- A fault at the end of the text is behind all that is complete. -/
theorem Placed.fault (placed : reading.Placed page front number) {e : ImportError}
    (faulty : reading.fault? number = some e) : front < e.line := by
  unfold fault? at faulty
  split at faulty
  · rename_i opened
    cases faulty
    exact placed.comment _ opened
  · split at faulty <;> cases faulty
    rename_i begun
    show front < number - 1
    obtain ⟨line, behind, before⟩ := placed.exists_entry begun
    omega

/-- A line without an entry. -/
theorem Placed.later (placed : reading.Placed page front number) {opened : Option OpenComment}
    (started : ∀ comment ∈ opened, comment ∈ reading.opened ∨ comment.line = number) :
    Placed page front ⟨opened, reading.draft⟩ (number + 1) where
  here := Nat.lt_succ_of_lt placed.here
  comment comment found := by
    obtain before | here := started comment found
    · exact placed.comment comment before
    · exact here ▸ placed.here
  template value given := by
    obtain ⟨line, behind, before, holds⟩ := placed.template value given
    exact ⟨line, behind, Nat.lt_succ_of_lt before, holds⟩
  precondition entry given := by
    obtain ⟨behind, before, holds⟩ := placed.precondition entry given
    exact ⟨behind, Nat.lt_succ_of_lt before, holds⟩
  condition entry given := by
    obtain ⟨behind, before, holds⟩ := placed.condition entry given
    exact ⟨behind, Nat.lt_succ_of_lt before, holds⟩

/-- An entry joins the block, or completes it. -/
theorem Placed.add (placed : reading.Placed page front number) {field : RuleField} {value : String}
    {draft : Draft} {rule? : Option Located} (holds : Holds page number field value)
    (added : reading.draft.add number field value = .ok (draft, rule?)) :
    (rule? = none ∧ Placed page front ⟨none, draft⟩ (number + 1)) ∨
      ∃ rule, rule? = some rule ∧ rule.Placed page front ∧
        Placed page rule.actionLine ⟨none, draft⟩ (number + 1) := by
  have later : Placed page front ⟨none, reading.draft⟩ (number + 1) := placed.later nofun
  unfold Draft.add at added
  split at added
  · split at added <;> cases added
    rename_i nothing
    obtain ⟨⟨-, noPrecondition⟩, noCondition⟩ := by
      simpa only [Draft.isEmpty, Bool.and_eq_true, Option.isNone_iff_eq_none] using nothing
    refine .inl ⟨rfl, { later with template := ?_ }⟩
    rintro _ ⟨⟩
    refine ⟨number, placed.here, Nat.lt_succ_self number, holds, ?_⟩
    rw [noCondition]
    exact nofun
  · split at added <;> cases added
    rename_i first
    obtain ⟨-, noCondition⟩ := by
      simpa only [Bool.or_eq_true, not_or, Bool.not_eq_true, Option.isSome_eq_false_iff,
        Option.isNone_iff_eq_none] using first
    refine .inl ⟨rfl, { later with precondition := ?_ }⟩
    rintro _ ⟨⟩
    refine ⟨placed.here, Nat.lt_succ_self number, holds, ?_⟩
    rw [noCondition]
    exact nofun
  · split at added <;> cases added
    refine .inl ⟨rfl, { later with
      template := ?_
      precondition := ?_
      condition := ?_ }⟩
    · intro value given
      obtain ⟨line, behind, before, holds, -⟩ := placed.template value given
      refine ⟨line, behind, Nat.lt_succ_of_lt before, holds, ?_⟩
      rintro _ ⟨⟩
      exact before
    · intro entry given
      obtain ⟨behind, before, holds, -⟩ := placed.precondition entry given
      refine ⟨behind, Nat.lt_succ_of_lt before, holds, ?_⟩
      rintro _ ⟨⟩
      exact before
    · rintro _ ⟨⟩
      exact ⟨placed.here, Nat.lt_succ_self number, holds⟩
  · split at added <;> cases added
    rename_i conditionLine condition given
    obtain ⟨behind, before, holdsCondition⟩ := placed.condition _ given
    refine .inr ⟨_, rfl, ?_, .between (Nat.lt_succ_self number)⟩
    refine ⟨?_, ?_, ⟨behind, before, holdsCondition⟩, holds⟩
    · intro value isTemplate
      obtain ⟨line, behind, -, holds, ahead⟩ := placed.template value isTemplate
      exact ⟨line, behind, ahead _ given, holds⟩
    · intro value isPrecondition
      obtain ⟨entry, found, rfl⟩ := Option.map_eq_some_iff.1 isPrecondition
      obtain ⟨behind, -, holds, ahead⟩ := placed.precondition entry found
      exact ⟨entry.1, Option.mem_map_of_mem Prod.fst found, behind, ahead _ given, holds⟩

theorem Placed.next (placed : reading.Placed page front number) {raw : List Char}
    {rule? : Option Located} (listed : (raw, number) ∈ page)
    (read : reading.next number raw = .ok (after, rule?)) :
    (rule? = none ∧ after.Placed page front (number + 1)) ∨
      ∃ rule, rule? = some rule ∧ rule.Placed page front ∧
        after.Placed page rule.actionLine (number + 1) := by
  obtain ⟨rfl, same, opened⟩ | ⟨line, field, value, stripped, entry, closed, added⟩ :=
    next_cases read
  · refine .inl ⟨rfl, ?_⟩
    obtain ⟨_, draft⟩ := after
    subst same
    exact placed.later opened
  · obtain ⟨_, draft⟩ := after
    subst closed
    exact placed.add ⟨raw, reading.opened, line, listed, stripped, entry⟩ added

/-- The findings of a scan stand in order. -/
theorem Placed.scan (placed : reading.Placed page front number) {raws : List (List Char)}
    (listed : raws.zipIdx number ⊆ page) :
    InOrder page front (findingsOf (reading.scan number raws)) := by
  induction raws generalizing reading front number with
  | nil =>
    rw [scan_nil, findingsOf]
    cases faulty : reading.fault? number with
    | none => exact .nil front
    | some e => exact .fault (placed.fault faulty)
  | cons raw raws ih =>
    rw [List.zipIdx_cons] at listed
    obtain ⟨here, rest⟩ := List.cons_subset.1 listed
    cases read : reading.next number raw with
    | error e =>
      rw [scan_cons_of_error read]
      exact .fault (line_of_next read ▸ placed.here)
    | ok read' =>
      obtain ⟨after, rule?⟩ := read'
      rw [scan_cons_of_ok read]
      obtain ⟨rfl, placed'⟩ | ⟨rule, rfl, whole, placed'⟩ := placed.next here read
      · exact ih placed' rest
      · exact .rule whole (ih placed' rest)

end Reading

theorem inOrder_findings (text : String) :
    InOrder ((lines text.toList).zipIdx 1) 0 (findings text) :=
  Reading.Placed.scan (.between Nat.zero_lt_one) (List.Subset.refl _)

/-! ## Where the strict policy stops -/

/-- The first script of the rule that does not compile, with its line and what is wrong with it. -/
inductive Located.FirstBad (scope : Scope) (rule : Located) : ImportError → Prop where
  | precondition {script : String} {line : Nat} {e : ScriptError}
      (given : rule.record.precondition = some script) (stands : rule.preconditionLine = some line)
      (bad : scope.parseCondition script = .error e) :
      FirstBad scope rule ⟨line, .invalid .precondition e⟩
  | condition {e : ScriptError}
      (sound : ∀ script ∈ rule.record.precondition, (scope.parseCondition script).isOk)
      (bad : scope.parseCondition rule.record.condition = .error e) :
      FirstBad scope rule ⟨rule.conditionLine, .invalid .condition e⟩
  | action {e : ScriptError}
      (sound : ∀ script ∈ rule.record.precondition, (scope.parseCondition script).isOk)
      (soundToo : (scope.parseCondition rule.record.condition).isOk)
      (bad : scope.parseCall rule.record.action = .error e) :
      FirstBad scope rule ⟨rule.actionLine, .invalid .action e⟩

theorem check_of_bad_precondition {scope : Scope} {rule : Located} {script : String} {line : Nat}
    {e : ScriptError} (given : rule.record.precondition = some script)
    (stands : rule.preconditionLine = some line) (bad : scope.parseCondition script = .error e) :
    rule.check scope = .error ⟨line, .invalid .precondition e⟩ := by
  unfold Located.check
  simp only [given, stands, bad]
  rfl

theorem check_of_sound_precondition {scope : Scope} {rule : Located} (whole : rule.IsWhole)
    (sound : ∀ script ∈ rule.record.precondition, (scope.parseCondition script).isOk) :
    rule.check scope =
      match scope.parseCondition rule.record.condition with
      | .error e => .error ⟨rule.conditionLine, .invalid .condition e⟩
      | .ok _ =>
        match scope.parseCall rule.record.action with
        | .error e => .error ⟨rule.actionLine, .invalid .action e⟩
        | .ok _ => .ok () := by
  obtain ⟨⟨condition, action, template, precondition⟩, preconditionLine, _, _⟩ := rule
  unfold Located.check
  cases precondition with
  | none => cases scope.parseCondition condition <;> cases scope.parseCall action <;> rfl
  | some script =>
    obtain ⟨line, rfl⟩ := Option.isSome_iff_exists.1 whole
    have passed := sound script rfl
    cases checked : scope.parseCondition script with
    | error =>
      rw [checked] at passed
      cases passed
    | ok =>
      simp only [checked]
      cases scope.parseCondition condition <;> cases scope.parseCall action <;> rfl

theorem check_eq_error_iff {rule : Located} (whole : rule.IsWhole) {scope : Scope}
    {e : ImportError} : rule.check scope = .error e ↔ rule.FirstBad scope e := by
  constructor
  · intro refused
    by_cases sound : ∀ script ∈ rule.record.precondition, (scope.parseCondition script).isOk
    · rw [check_of_sound_precondition whole sound] at refused
      split at refused
      · rename_i bad
        cases refused
        exact .condition sound bad
      · rename_i passed
        split at refused
        · rename_i bad
          cases refused
          exact .action sound (by rw [passed]; rfl) bad
        · cases refused
    · simp only [not_forall] at sound
      obtain ⟨script, given, unsound⟩ := sound
      obtain ⟨line, stands⟩ : ∃ line, rule.preconditionLine = some line := by
        rw [← Option.isSome_iff_exists, whole, given]
        rfl
      cases bad : scope.parseCondition script with
      | error e' =>
        rw [check_of_bad_precondition given stands bad] at refused
        cases refused
        exact .precondition given stands bad
      | ok =>
        rw [bad] at unsound
        exact absurd rfl unsound
  · rintro (⟨given, stands, bad⟩ | ⟨sound, bad⟩ | ⟨sound, soundToo, bad⟩)
    · exact check_of_bad_precondition given stands bad
    · rw [check_of_sound_precondition whole sound, bad]
    · rw [check_of_sound_precondition whole sound]
      cases passed : scope.parseCondition rule.record.condition with
      | error =>
        rw [passed] at soundToo
        cases soundToo
      | ok => simp only [bad]

/-- Why a text cannot be taken whole: a rule in it does not compile, or there is a fault. -/
inductive Finding.Objects (scope : Scope) : Finding → ImportError → Prop where
  | rule {rule : Located} {e : ImportError} (bad : rule.FirstBad scope e) :
      Objects scope (.rule rule) e
  | fault (e : ImportError) : Objects scope (.fault e) e

/-- What the strict policy finds objectionable. -/
def Finding.objection? (scope : Scope) : Finding → Option ImportError
  | .rule located =>
    match located.check scope with
    | .error e => some e
    | .ok _ => none
  | .fault e => some e

theorem objection?_eq_some_iff {scope : Scope} {finding : Finding} {e : ImportError}
    (whole : ∀ rule, finding = .rule rule → rule.IsWhole) :
    finding.objection? scope = some e ↔ finding.Objects scope e := by
  cases finding with
  | fault error =>
    constructor
    · rintro ⟨⟩
      exact .fault e
    · rintro ⟨⟩
      rfl
  | rule rule =>
    have refused : (Finding.rule rule).objection? scope = some e ↔ rule.check scope = .error e := by
      cases checked : rule.check scope <;> simp [Finding.objection?, checked]
    rw [refused, check_eq_error_iff (whole rule rfl)]
    constructor
    · exact .rule
    · rintro ⟨bad⟩
      exact bad

theorem checkAll_eq_error_iff {scope : Scope} {rules : List Located} {e : ImportError} :
    checkAll (Located.check scope) rules = .error e ↔
      (rules.map Finding.rule).findSome? (Finding.objection? scope) = some e := by
  induction rules with
  | nil => simp [checkAll]
  | cons rule rules ih =>
    rw [checkAll, List.map_cons, List.findSome?_cons, Finding.objection?]
    cases rule.check scope with
    | error => simp
    | ok =>
      simp only
      rw [← ih]
      cases checkAll (Located.check scope) rules <;> simp [Except.map]

theorem read_eq_error_iff {scope : Option Scope} {policy : ImportPolicy} {text : String}
    {e : ImportError} : read scope policy text = .error e ↔
      select scope policy (scan text).1 = .error e ∨
        (∃ report, select scope policy (scan text).1 = .ok report) ∧ (scan text).2 = some e := by
  unfold read
  simp only
  cases select scope policy (scan text).1 with
  | error => simp
  | ok report => cases (scan text).2 <;> simp

theorem map_filter_isOk {scope : Scope} {rules : List Located}
    (whole : ∀ rule ∈ rules, rule.IsWhole) :
    (rules.filter fun rule => (rule.check scope).isOk).map Located.record =
      (rules.map Located.record).filter (·.compiles scope) := by
  rw [List.filter_map]
  refine congrArg _ (List.filter_congr fun rule listed => ?_)
  exact isOk_check (whole rule listed) scope

theorem select_strict_eq_ok_iff {scope : Scope} {rules : List Located} {report : ImportReport}
    (whole : ∀ rule ∈ rules, rule.IsWhole) :
    select (some scope) .strict rules = .ok report ↔
      report = ⟨rules.map Located.record, 0⟩ ∧ ∀ record ∈ report.rules, record.compiles scope := by
  constructor
  · intro selected
    refine ⟨?_, fun record member =>
      passes_of_select whole selected record member scope rfl (by decide)⟩
    rw [select] at selected
    cases checked : checkAll (Located.check scope) rules with
    | error _ =>
      rw [checked] at selected
      cases selected
    | ok records =>
      rw [checked] at selected
      cases selected
      rw [checkAll_eq_ok checked]
  · rintro ⟨rfl, compile⟩
    refine select_of_passes whole ?_
    rintro rule listed known ⟨⟩ -
    exact compile _ (List.mem_map_of_mem listed)

theorem read_strict_eq_error_iff {scope : Scope} {text : String} {e : ImportError} :
    read (some scope) .strict text = .error e ↔
      (findings text).findSome? (Finding.objection? scope) = some e := by
  have refused (e : ImportError) : select (some scope) .strict (scan text).1 = .error e ↔
      ((scan text).1.map Finding.rule).findSome? (Finding.objection? scope) = some e := by
    rw [← checkAll_eq_error_iff, select]
    cases checkAll (Located.check scope) (scan text).1 <;> simp [Except.map]
  rw [read_eq_error_iff, refused, findings, findingsOf, List.findSome?_append]
  cases selected : select (some scope) .strict (scan text).1 with
  | error first => simp [(refused first).1 selected]
  | ok report =>
    have silent :
        ((scan text).1.map Finding.rule).findSome? (Finding.objection? scope) = none := by
      rw [Option.eq_none_iff_forall_ne_some]
      intro e objects
      rw [(refused e).2 objects] at selected
      cases selected
    rw [silent]
    cases (scan text).2 <;> simp [Finding.objection?]

/-! ## The policies agree -/

/-- How the reports on one text are related. -/
structure PoliciesAgree (scope : Scope) (text : String) : Prop where
  /-- Each policy may as well be followed while the text is read. -/
  onePass : ∀ policy,
    importLines (some scope) policy {} ⟨[], 0⟩ 1 (lines text.toList) = read (some scope) policy text
  inOrder : InOrder ((lines text.toList).zipIdx 1) 0 (findings text)
  faulty : ∀ e, read (some scope) .allowErrors text = .error e ↔ .fault e ∈ findings text
  complete : ∀ all, read (some scope) .allowErrors text = .ok all →
    ∃ rules : List Located, findings text = rules.map .rule ∧ all = ⟨rules.map Located.record, 0⟩
  failTogether : ∀ e, read (some scope) .skipInvalid text = .error e ↔
    read (some scope) .allowErrors text = .error e
  skips : ∀ all, read (some scope) .allowErrors text = .ok all →
    ∃ kept, read (some scope) .skipInvalid text = .ok kept ∧
      kept.rules = all.rules.filter (·.compiles scope) ∧
      kept.skipped + kept.rules.length = all.rules.length
  strict : ∀ report, read (some scope) .strict text = .ok report ↔
    read (some scope) .allowErrors text = .ok report ∧
      ∀ record ∈ report.rules, record.compiles scope
  strictSkips : ∀ report, read (some scope) .strict text = .ok report →
    read (some scope) .skipInvalid text = .ok report
  strictFails : ∀ e, read (some scope) .strict text = .error e ↔
    ∃ before finding after, findings text = before ++ finding :: after ∧
      (∀ other ∈ before, ∀ e', ¬ other.Objects scope e') ∧ finding.Objects scope e

theorem fault_mem_findings {text : String} {e : ImportError} :
    .fault e ∈ findings text ↔ (scan text).2 = some e := by
  simp [findings, findingsOf, eq_comm]

/-- The policies agree on every text. They find the same rules and the same fault; in front of the
fault, one of them keeps all rules, one those that compile, and one goes no further than the first
that does not. -/
theorem policies_agree (scope : Scope) (text : String) : PoliciesAgree scope text where
  onePass policy := importLines_eq_read
  inOrder := inOrder_findings text
  faulty e := by
    rw [read_eq_error_iff, fault_mem_findings]
    simp [select]
  complete all imported := by
    obtain ⟨sound, selected⟩ := read_eq_ok_iff.1 imported
    refine ⟨(scan text).1, ?_, ?_⟩
    · simp [findings, findingsOf, sound]
    · cases selected
      rfl
  failTogether e := by
    rw [read_eq_error_iff, read_eq_error_iff]
    simp [select]
  skips all imported := by
    obtain ⟨sound, selected⟩ := read_eq_ok_iff.1 imported
    cases selected
    have fits := List.length_filter_le (fun rule : Located => (rule.check scope).isOk) (scan text).1
    refine ⟨_, read_eq_ok_iff.2 ⟨sound, rfl⟩, map_filter_isOk isWhole_of_scan, ?_⟩
    simp only [List.length_map]
    omega
  strict report := by
    rw [read_eq_ok_iff, read_eq_ok_iff, and_assoc]
    refine and_congr_right fun _ => ?_
    rw [select_strict_eq_ok_iff isWhole_of_scan]
    refine and_congr_left fun _ => ?_
    exact ⟨fun same => same ▸ rfl, fun selected => (Except.ok.inj selected).symm⟩
  strictSkips report imported := by
    obtain ⟨sound, selected⟩ := read_eq_ok_iff.1 imported
    obtain ⟨rfl, compile⟩ := (select_strict_eq_ok_iff isWhole_of_scan).1 selected
    refine read_eq_ok_iff.2 ⟨sound, select_of_passes isWhole_of_scan ?_⟩
    rintro rule listed known ⟨⟩ -
    exact compile _ (List.mem_map_of_mem listed)
  strictFails e := by
    have whole : ∀ finding ∈ findings text, ∀ rule, finding = .rule rule → rule.IsWhole := by
      rintro _ found rule rfl
      have scanned : rule ∈ (scan text).1 := by simpa [findings, findingsOf] using found
      exact isWhole_of_scan rule scanned
    rw [read_strict_eq_error_iff, List.findSome?_eq_some_iff]
    refine exists_congr fun before => exists_congr fun finding => exists_congr fun after =>
      and_congr_right fun split => ?_
    have objects : finding.objection? scope = some e ↔ finding.Objects scope e :=
      objection?_eq_some_iff (whole finding (by simp [split]))
    have silent (other : Finding) (listed : other ∈ before) :
        other.objection? scope = none ↔ ∀ e', ¬ other.Objects scope e' := by
      have known := whole other (by simp [split, listed])
      rw [Option.eq_none_iff_forall_ne_some]
      exact forall_congr' fun e' => not_congr (objection?_eq_some_iff known)
    rw [objects, and_comm]
    exact and_congr_left fun _ => forall₂_congr silent

/-- A rule that does not compile in front of a comment without an end. -/
def muddle : String :=
  "condition: (gt 1 0)\naction: (act Bell.Ring 'once')\n\nprecondition: 1\n" ++
    "condition: (sig Bell.Rope)\naction: (gt 1 0)\n/* the rest\ncondition: 1\n"

example : read (some bell) .allowErrors muddle = .error ⟨7, .openComment⟩ ∧
    read (some bell) .skipInvalid muddle = .error ⟨7, .openComment⟩ ∧
    read (some bell) .strict muddle =
      .error ⟨5, .invalid .condition (.lookup (.noProvider "Bell.Rope"))⟩ := by
  decide +kernel

end RuleText

end SignalRules
