import SignalRules.Proofs.Policies

/-! # The grammar of rule text

Once its comments are taken away, a line of rule text is blank, an entry or malformed. A text is
read exactly if its lines make up whole blocks, one for each rule, with blank lines between blocks
only, and no comment is left open. If it is not read, the line at fault is the first at which no
more lines could make whole blocks of what has been read; failing that, the line on which the open
comment began; failing that, the last.
-/

namespace SignalRules

open Sexp (Stops dropWhile_append_stops takeWhile_append_stops)

namespace RuleText

/-! ## Lines -/

/-- The line has a known key, a colon and, behind the first colon, a value that is not blank. -/
def IsEntry (line : List Char) (field : RuleField) (value : String) : Prop :=
  ∃ key rest, line = key ++ ':' :: rest ∧ ':' ∉ key ∧ Text.trim key = field.key.toList ∧
    Text.trim rest = value.toList ∧ value.toList ≠ []

theorem ofKey?_eq_some_iff {key : List Char} {field : RuleField} :
    RuleField.ofKey? key = some field ↔ key = field.key.toList := by
  constructor
  · intro found
    have same := List.find?_some found
    exact (of_decide_eq_true same).symm
  · rintro rfl
    cases field <;> decide

theorem readEntry_of_split {key rest : List Char} (first : ':' ∉ key) :
    readEntry (key ++ ':' :: rest) =
      if (Text.trim rest).isEmpty then .error (.emptyValue (String.ofList (Text.trim key)))
      else
        match RuleField.ofKey? (Text.trim key) with
        | none => .error (.unknownKey (String.ofList (Text.trim key)))
        | some field => .ok (field, String.ofList (Text.trim rest)) := by
  have inKey : ∀ c ∈ key, (c != ':') = true := by
    intro c member
    exact bne_iff_ne.2 fun same => first (same ▸ member)
  have colon : Stops (· != ':') (':' :: rest) := by
    rintro _ ⟨⟩
    rfl
  rewrite [readEntry, dropWhile_append_stops inKey colon, takeWhile_append_stops inKey colon]
  rfl

theorem readEntry_of_no_colon {line : List Char} (none : ':' ∉ line) :
    readEntry line = .error (.notEntry (String.ofList line)) := by
  have all : line.dropWhile (· != ':') = [] := by
    rw [List.dropWhile_eq_nil_iff]
    intro c member
    exact bne_iff_ne.2 fun same => none (same ▸ member)
  rw [readEntry, all]

/-- A line is read as an entry exactly if it is one. -/
theorem readEntry_eq_ok_iff {line : List Char} {field : RuleField} {value : String} :
    readEntry line = .ok (field, value) ↔ IsEntry line field value := by
  constructor
  · intro entry
    by_cases colon : ':' ∈ line
    · obtain ⟨key, rest, rfl, first⟩ := List.eq_append_cons_of_mem colon
      rw [readEntry_of_split first] at entry
      split at entry
      · cases entry
      · rename_i visible
        split at entry
        · cases entry
        · rename_i known
          cases entry
          refine ⟨key, rest, rfl, first, ofKey?_eq_some_iff.1 known, ?_, ?_⟩
          · rw [String.toList_ofList]
          · simpa using visible
    · rw [readEntry_of_no_colon colon] at entry
      cases entry
  · rintro ⟨key, rest, rfl, first, known, same, visible⟩
    rw [readEntry_of_split first, same, if_neg (by simpa using visible),
      ofKey?_eq_some_iff.2 known]
    simp

/-- What a line is to the grammar. -/
inductive Sign where
  | blank
  | entry (field : RuleField) (value : String)
  /-- It has no colon or no value, or its key is unknown. -/
  | malformed

/-- A comment is nothing to the grammar. -/
def Content.sign? : Content → Option Sign
  | .blank => some .blank
  | .comment => none
  | .text line =>
    match readEntry line with
    | .ok (field, value) => some (.entry field value)
    | .error _ => some .malformed

theorem sign?_text_eq_entry_iff {line : List Char} {field : RuleField} {value : String} :
    (Content.text line).sign? = some (.entry field value) ↔ IsEntry line field value := by
  rw [← readEntry_eq_ok_iff, Content.sign?]
  cases readEntry line with
  | error _ => simp
  | ok parts => simp [Prod.ext_iff]

/-- What lines are to the grammar, from the line of this number on, with a comment possibly open in
front of them. -/
def signs (opened : Option OpenComment) (number : Nat) : List (List Char) → List Sign
  | [] => []
  | raw :: raws =>
    (strip opened number raw).2.sign?.toList ++ signs (strip opened number raw).1 (number + 1) raws

/-- The comment that is open behind the lines. -/
def openAfter (opened : Option OpenComment) (number : Nat) : List (List Char) → Option OpenComment
  | [] => opened
  | raw :: raws => openAfter (strip opened number raw).1 (number + 1) raws

theorem signs_append (opened : Option OpenComment) (number : Nat) (first rest : List (List Char)) :
    signs opened number (first ++ rest) = signs opened number first ++
      signs (openAfter opened number first) (number + first.length) rest := by
  induction first generalizing opened number with
  | nil => rfl
  | cons raw raws ih =>
    simp only [List.cons_append, signs, openAfter, ih, List.append_assoc, List.length_cons]
    rw [Nat.add_right_comm, Nat.add_assoc]

theorem openAfter_append (opened : Option OpenComment) (number : Nat)
    (first rest : List (List Char)) :
    openAfter opened number (first ++ rest) =
      openAfter (openAfter opened number first) (number + first.length) rest := by
  induction first generalizing opened number with
  | nil => rfl
  | cons raw raws ih =>
    simp only [List.cons_append, openAfter, ih, List.length_cons]
    rw [Nat.add_right_comm, Nat.add_assoc]

/-! ## Blocks -/

end RuleText

open RuleText (Sign)

/-- The entries of a rule, in their order. -/
def RuleRecord.signs (record : RuleRecord) : List Sign :=
  record.template.toList.map (.entry .template) ++
    record.precondition.toList.map (.entry .precondition) ++
    [.entry .condition record.condition, .entry .action record.action]

namespace RuleText

/-- The entries of a block that has begun. -/
def Draft.signs (draft : Draft) : List Sign :=
  draft.template.toList.map (.entry .template) ++
    draft.precondition.toList.map (.entry .precondition ·.2) ++
    draft.condition.toList.map (.entry .condition ·.2)

/-- Whole blocks, one for each rule, with any number of blank lines between them. -/
inductive Blocks : List Sign → List RuleRecord → Prop where
  | nil : Blocks [] []
  | blank {rest : List Sign} {records : List RuleRecord} :
    Blocks rest records → Blocks (.blank :: rest) records
  | block (record : RuleRecord) {rest : List Sign} {records : List RuleRecord} :
    Blocks rest records → Blocks (record.signs ++ rest) (record :: records)

/-- With more lines there could be whole blocks. -/
def Viable (signs : List Sign) : Prop :=
  ∃ more records, Blocks (signs ++ more) records

theorem Viable.of_append {first rest : List Sign} (viable : Viable (first ++ rest)) :
    Viable first := by
  obtain ⟨more, records, blocks⟩ := viable
  exact ⟨rest ++ more, records, by rwa [← List.append_assoc]⟩

theorem Blocks.viable {signs : List Sign} {records : List RuleRecord}
    (blocks : Blocks signs records) : Viable signs :=
  ⟨[], records, by rwa [List.append_nil]⟩

theorem signs_ne_blank {record : RuleRecord} {rest signs : List Sign} :
    record.signs ++ rest ≠ .blank :: signs := by
  obtain ⟨condition, action, template, precondition⟩ := record
  cases template <;> cases precondition <;> simp [RuleRecord.signs]

/-- Where the block of a rule ends can be told from its entries. -/
theorem signs_append_inj {record record' : RuleRecord} {rest rest' : List Sign}
    (same : record.signs ++ rest = record'.signs ++ rest') : record = record' ∧ rest = rest' := by
  obtain ⟨condition, action, template, precondition⟩ := record
  obtain ⟨condition', action', template', precondition'⟩ := record'
  cases template <;> cases precondition <;> cases template' <;> cases precondition' <;>
    simp_all [RuleRecord.signs]

theorem blocks_blank_iff {rest : List Sign} {records : List RuleRecord} :
    Blocks (.blank :: rest) records ↔ Blocks rest records := by
  refine ⟨fun blocks => ?_, .blank⟩
  generalize same : Sign.blank :: rest = all at blocks
  cases blocks with
  | nil => cases same
  | blank blocks =>
    cases same
    exact blocks
  | block record _ => exact absurd same.symm signs_ne_blank

theorem blocks_block_iff {record : RuleRecord} {rest : List Sign} {records : List RuleRecord} :
    Blocks (record.signs ++ rest) records ↔
      ∃ records', records = record :: records' ∧ Blocks rest records' := by
  constructor
  · intro blocks
    generalize same : record.signs ++ rest = all at blocks
    cases blocks with
    | nil => simp [RuleRecord.signs] at same
    | blank _ => exact absurd same signs_ne_blank
    | block record' blocks =>
      obtain ⟨rfl, rfl⟩ := signs_append_inj same
      exact ⟨_, rfl, blocks⟩
  · rintro ⟨records', rfl, blocks⟩
    exact .block record blocks

/-- Signs make up the blocks of one list of rules at most. -/
theorem Blocks.unique {signs : List Sign} {records records' : List RuleRecord}
    (blocks : Blocks signs records) (blocks' : Blocks signs records') : records = records' := by
  induction blocks generalizing records' with
  | nil =>
    generalize same : ([] : List Sign) = all at blocks'
    cases blocks' with
    | nil => rfl
    | blank _ => cases same
    | block record _ => simp [RuleRecord.signs] at same
  | blank _ ih => exact ih (blocks_blank_iff.1 blocks')
  | block record _ ih =>
    obtain ⟨rest, same, blocks'⟩ := blocks_block_iff.1 blocks'
    rw [same, ih blocks']

namespace Draft

theorem signs_of_isEmpty {draft : Draft} (nothing : draft.isEmpty) : draft.signs = [] := by
  simp only [isEmpty, Bool.and_eq_true, Option.isNone_iff_eq_none] at nothing
  simp [signs, nothing]

theorem eq_blank_of_signs {draft : Draft} {sign : Sign} {more rest : List Sign}
    (same : draft.signs ++ sign :: more = .blank :: rest) :
    draft.isEmpty ∧ sign = .blank ∧ more = rest := by
  obtain ⟨template, precondition, condition⟩ := draft
  cases template <;> cases precondition <;> cases condition <;> simp_all [signs, isEmpty]

/-- What follows in a block is an entry that may be added. -/
theorem add_of_signs {draft : Draft} {sign : Sign} {more rest : List Sign} {record : RuleRecord}
    (same : draft.signs ++ sign :: more = record.signs ++ rest) (number : Nat) :
    ∃ field value added, sign = .entry field value ∧ draft.add number field value = .ok added := by
  obtain ⟨template, precondition, condition⟩ := draft
  obtain ⟨_, _, template', precondition'⟩ := record
  cases template <;> cases precondition <;> cases condition <;> cases template' <;>
    cases precondition' <;> cases same <;> exact ⟨_, _, _, rfl, rfl⟩

/-- In whole blocks, what follows the entries of a block that has begun is one that may be added. A
blank line can stand where none has begun. -/
theorem follows_of_viable {draft : Draft} {sign : Sign} (viable : Viable (draft.signs ++ [sign]))
    (number : Nat) : (sign = .blank ∧ draft.isEmpty) ∨
      ∃ field value added, sign = .entry field value ∧
        draft.add number field value = .ok added := by
  obtain ⟨more, records, blocks⟩ := viable
  rw [List.append_assoc, List.singleton_append] at blocks
  generalize same : draft.signs ++ sign :: more = all at blocks
  cases blocks with
  | nil => simp at same
  | blank _ =>
    obtain ⟨nothing, isBlank, _⟩ := eq_blank_of_signs same
    exact .inl ⟨isBlank, nothing⟩
  | block record _ => exact .inr (add_of_signs same number)

/-- A block that has begun can be completed. -/
theorem viable (draft : Draft) : Viable draft.signs := by
  obtain ⟨template, precondition, condition⟩ := draft
  let record : RuleRecord :=
    { condition := (condition.map Prod.snd).getD "", action := "", template,
      precondition := precondition.map Prod.snd }
  have whole : ∃ more, (Draft.mk template precondition condition).signs ++ more = record.signs := by
    cases condition with
    | none =>
      refine ⟨[.entry .condition "", .entry .action ""], ?_⟩
      cases precondition <;> simp [signs, RuleRecord.signs, record]
    | some condition =>
      refine ⟨[.entry .action ""], ?_⟩
      cases precondition <;> simp [signs, RuleRecord.signs, record]
  obtain ⟨more, same⟩ := whole
  refine ⟨more, [record], ?_⟩
  rw [same, ← List.append_nil record.signs]
  exact .block record .nil

/-- A block that has begun is not whole. -/
theorem blocks_signs_iff {draft : Draft} {records : List RuleRecord} :
    Blocks draft.signs records ↔ draft.isEmpty ∧ records = [] := by
  constructor
  · intro blocks
    have noAction : ∀ action, .entry .action action ∉ draft.signs := by simp [signs]
    generalize same : draft.signs = all at blocks
    cases blocks with
    | nil =>
      obtain ⟨template, precondition, condition⟩ := draft
      cases template <;> cases precondition <;> cases condition <;> simp_all [signs, isEmpty]
    | blank _ =>
      have noBlank : Sign.blank ∉ draft.signs := by simp [signs]
      rw [same] at noBlank
      simp at noBlank
    | block record _ =>
      have none := noAction record.action
      rw [same] at none
      simp [RuleRecord.signs] at none
  · rintro ⟨nothing, rfl⟩
    rw [signs_of_isEmpty nothing]
    exact .nil

/-- An entry that is added belongs to the block, and the last one makes it whole. -/
theorem signs_add {draft draft' : Draft} {number : Nat} {field : RuleField} {value : String}
    {rule? : Option Located} (added : draft.add number field value = .ok (draft', rule?)) :
    draft.signs ++ [.entry field value] =
      (rule?.map fun rule => rule.record.signs).getD [] ++ draft'.signs := by
  obtain ⟨template, precondition, condition⟩ := draft
  unfold add at added
  split at added
  · split at added <;> cases added
    rename_i nothing
    simp_all [isEmpty, signs]
  · split at added <;> cases added
    rename_i first
    simp_all [signs]
  · split at added <;> cases added
    rename_i first
    simp_all [signs]
  · split at added <;> cases added
    rename_i given
    subst given
    cases precondition <;> simp [signs, RuleRecord.signs, empty]

end Draft

/-! ## Reading blocks -/

namespace Reading

variable {reading after : Reading} {number : Nat} {raw : List Char}

/-- A line that is read leaves the comment open that stands open behind it, and says as much about
the blocks as the rule that it completes and the block that is then open. -/
theorem signs_of_next {rule? : Option Located}
    (read : reading.next number raw = .ok (after, rule?)) :
    after.opened = (strip reading.opened number raw).1 ∧ ∀ rest records,
      Blocks (reading.draft.signs ++ ((strip reading.opened number raw).2.sign?.toList ++ rest))
          records ↔
        ∃ records', records = (rule?.map Located.record).toList ++ records' ∧
          Blocks (after.draft.signs ++ rest) records' := by
  unfold next at read
  rcases stripped : strip reading.opened number raw with ⟨opened, content⟩
  rw [stripped] at read
  cases content with
  | comment =>
    cases read
    exact ⟨rfl, fun rest records => by simp [Content.sign?]⟩
  | blank =>
    simp only at read
    split at read <;> cases read
    rename_i nothing
    refine ⟨rfl, fun rest records => ?_⟩
    rw [Draft.signs_of_isEmpty nothing]
    simpa [Content.sign?] using blocks_blank_iff
  | text line =>
    simp only at read
    split at read
    · cases read
    · rename_i field value entry
      split at read <;> cases read
      rename_i added
      refine ⟨rfl, fun rest records => ?_⟩
      simp only [Content.sign?, entry, Option.toList_some]
      rw [← List.append_assoc, Draft.signs_add added]
      cases rule? with
      | none => simp
      | some rule => simpa [List.append_assoc] using blocks_block_iff

/-- At a line that is not read there are no whole blocks to come. -/
theorem not_viable_of_next {e : ImportError} (faulty : reading.next number raw = .error e) :
    ¬Viable (reading.draft.signs ++ (strip reading.opened number raw).2.sign?.toList) := by
  intro viable
  unfold next at faulty
  rcases stripped : strip reading.opened number raw with ⟨opened, content⟩
  rw [stripped] at faulty viable
  cases content with
  | comment => cases faulty
  | blank =>
    simp only at faulty
    split at faulty <;> cases faulty
    rename_i begun
    rcases Draft.follows_of_viable viable number with ⟨_, nothing⟩ | ⟨_, _, _, same, _⟩
    · exact begun nothing
    · cases same
  | text line =>
    simp only [Content.sign?] at faulty viable
    cases entry : readEntry line with
    | error _ =>
      simp only [entry, Option.toList_some] at viable
      rcases Draft.follows_of_viable viable number with ⟨same, _⟩ | ⟨_, _, _, same, _⟩ <;>
        cases same
    | ok parts =>
      obtain ⟨field, value⟩ := parts
      simp only [entry, Option.toList_some] at faulty viable
      rcases Draft.follows_of_viable viable number with ⟨same, _⟩ | ⟨_, _, added, same, found⟩
      · cases same
      · cases same
        rw [found] at faulty
        cases faulty

/-- Where lines are read without a fault they make up whole blocks, those of the rules that come of
them. -/
theorem blocks_of_scan {raws : List (List Char)} (sound : (reading.scan number raws).2 = none) :
    openAfter reading.opened number raws = none ∧
      Blocks (reading.draft.signs ++ signs reading.opened number raws)
        ((reading.scan number raws).1.map Located.record) := by
  induction raws generalizing reading number with
  | nil =>
    rw [scan_nil] at sound ⊢
    simp only [fault?] at sound
    split at sound
    · cases sound
    · rename_i closed
      split at sound
      · rename_i nothing
        refine ⟨closed, ?_⟩
        rw [signs, List.append_nil]
        exact Draft.blocks_signs_iff.2 ⟨nothing, rfl⟩
      · cases sound
  | cons raw raws ih =>
    cases read : reading.next number raw with
    | error e =>
      rw [scan_cons_of_error read] at sound
      cases sound
    | ok read' =>
      obtain ⟨after, rule?⟩ := read'
      rw [scan_cons_of_ok read] at sound ⊢
      obtain ⟨opened, blocks⟩ := signs_of_next read
      obtain ⟨closed, rest⟩ := ih sound
      rw [opened] at closed rest
      refine ⟨closed, (blocks _ _).2 ⟨_, ?_, rest⟩⟩
      cases rule? <;> rfl

/-- Whole blocks can come of a line that is read without a fault if they can come of the lines
behind it. -/
theorem viable_of_next {after : Reading} {rule? : Option Located}
    (read : reading.next number raw = .ok (after, rule?)) (raws : List (List Char)) :
    Viable (reading.draft.signs ++ signs reading.opened number (raw :: raws)) ↔
      Viable (after.draft.signs ++ signs after.opened (number + 1) raws) := by
  obtain ⟨opened, blocks⟩ := signs_of_next read
  simp only [Viable, signs, opened, List.append_assoc, blocks]
  constructor
  · rintro ⟨more, _, records, rfl, whole⟩
    exact ⟨more, records, whole⟩
  · rintro ⟨more, records, whole⟩
    exact ⟨more, _, records, rfl, whole⟩

/-- What can be at fault at the end is that a comment is open, or else that a block has begun. -/
theorem stops_of_end {e : ImportError} (faulty : (reading.scan number []).2 = some e) :
    (∃ comment, reading.opened = some comment ∧ e.line = comment.line) ∨
      reading.opened = none ∧ e.line = number - 1 ∧
        ∀ records, ¬Blocks reading.draft.signs records := by
  rw [scan_nil] at faulty
  simp only [fault?] at faulty
  split at faulty
  · rename_i comment opened
    cases faulty
    exact .inl ⟨comment, opened, rfl⟩
  · rename_i closed
    split at faulty <;> cases faulty
    rename_i begun
    refine .inr ⟨closed, rfl, fun records blocks => ?_⟩
    exact begun (Draft.blocks_signs_iff.1 blocks).1

/-- Where the reading of lines stops, the first of which has this number: on a line behind which no
whole blocks could come, or, failing that, at the end. -/
theorem stops_of_scan {raws : List (List Char)} {e : ImportError}
    (faulty : (reading.scan number raws).2 = some e) :
    (∃ before raw after, raws = before ++ raw :: after ∧ e.line = number + before.length ∧
      Viable (reading.draft.signs ++ signs reading.opened number before) ∧
      ¬Viable (reading.draft.signs ++ signs reading.opened number (before ++ [raw]))) ∨
    Viable (reading.draft.signs ++ signs reading.opened number raws) ∧
      ((∃ comment, openAfter reading.opened number raws = some comment ∧ e.line = comment.line) ∨
        openAfter reading.opened number raws = none ∧ e.line = number + raws.length - 1 ∧
          ∀ records,
            ¬Blocks (reading.draft.signs ++ signs reading.opened number raws) records) := by
  induction raws generalizing reading number with
  | nil =>
    right
    rw [signs, List.append_nil]
    exact ⟨reading.draft.viable, stops_of_end faulty⟩
  | cons raw raws ih =>
    cases read : reading.next number raw with
    | error e' =>
      rw [scan_cons_of_error read] at faulty
      cases faulty
      refine .inl ⟨[], raw, raws, rfl, line_of_next read, ?_, ?_⟩
      · rw [signs, List.append_nil]
        exact reading.draft.viable
      · rw [List.nil_append, signs, signs, List.append_nil]
        exact not_viable_of_next read
    | ok read' =>
      obtain ⟨after, rule?⟩ := read'
      rw [scan_cons_of_ok read] at faulty
      have viable := viable_of_next read
      rcases ih faulty with ⟨before, bad, behind, rfl, line, good, broken⟩ | ⟨good, ends⟩
      · refine .inl ⟨raw :: before, bad, behind, rfl, ?_, (viable _).2 good, ?_⟩
        · rw [line, List.length_cons]
          omega
        · exact mt (viable _).1 broken
      · refine .inr ⟨(viable _).2 good, ?_⟩
        obtain ⟨opened, blocks⟩ := signs_of_next read
        rw [opened] at ends
        rcases ends with ⟨comment, found, line⟩ | ⟨closed, line, unfinished⟩
        · exact .inl ⟨comment, found, line⟩
        · refine .inr ⟨closed, ?_, fun records whole => ?_⟩
          · rw [line, List.length_cons]
            omega
          · obtain ⟨records', _, whole⟩ := (blocks _ _).1 whole
            exact unfinished records' whole

end Reading

/-! ## Comments without an end -/

theorem after?_eq_none_iff {tag : List Char} : ∀ {cs : List Char},
    after? tag cs = none ↔ ¬tag <:+: cs
  | [] => by simp [after?]
  | c :: cs => by
    rw [after?, List.infix_cons_iff, not_or, ← after?_eq_none_iff, ← List.isPrefixOf_iff_prefix]
    split <;> simp_all

/-- What is left of a line once the comment is over that is open in front of it, if it ends
there. -/
def uncovered? (opened : Option OpenComment) (raw : List Char) : Option (List Char) :=
  match opened with
  | none => some (Text.trim raw)
  | some comment => (after? comment.close (Text.trim raw)).map Text.trim

/-- A block comment begins where this does, and does not end in it. -/
def Begins (close : List Char) (line : List Char) : Prop :=
  ∃ opening rest, (opening, close) ∈ blockComments ∧ line = opening ++ rest ∧ ¬close <:+: rest

theorem strip_of_covered {opened : Option OpenComment} {number : Nat} {raw : List Char}
    (covered : uncovered? opened raw = none) : strip opened number raw = (opened, .comment) := by
  cases opened with
  | none => cases covered
  | some comment =>
    have goesOn : after? comment.close (Text.trim raw) = none := Option.map_eq_none_iff.1 covered
    simp only [strip, goesOn]

theorem opened_of_uncovered {opened : Option OpenComment} {number : Nat} {raw line : List Char}
    (left : uncovered? opened raw = some line) :
    (strip opened number raw).1 = (stripFront number line).1 := by
  cases opened with
  | none =>
    cases left
    rw [strip]
    split
    · rename_i nothing
      rw [List.isEmpty_iff.1 nothing]
      rfl
    · rfl
  | some comment =>
    obtain ⟨rest, found, rfl⟩ := Option.map_eq_some_iff.1 left
    simp only [strip, found]

theorem find?_blockComments {opening close : List Char}
    (listed : (opening, close) ∈ blockComments) (rest : List Char) :
    blockComments.find? (fun tags => tags.1.isPrefixOf (opening ++ rest)) =
      some (opening, close) := by
  simp only [blockComments, List.mem_cons, Prod.mk.injEq, List.not_mem_nil, or_false] at listed
  rcases listed with ⟨rfl, rfl⟩ | ⟨rfl, rfl⟩ <;> simp [blockComments]

theorem opened_stripFront_iff {number : Nat} {line : List Char} {comment : OpenComment} :
    (stripFront number line).1 = some comment ↔
      comment.line = number ∧ Begins comment.close line := by
  constructor
  · intro opens
    unfold stripFront at opens
    split at opens
    · cases opens
    · rename_i opening close found
      split at opens <;> cases opens
      rename_i goesOn
      have starts := List.find?_some found
      obtain ⟨rest, rfl⟩ := List.isPrefixOf_iff_prefix.1 starts
      rw [List.drop_left] at goesOn
      exact ⟨rfl, opening, rest, List.mem_of_find?_eq_some found, rfl,
        after?_eq_none_iff.1 goesOn⟩
  · rintro ⟨rfl, opening, rest, listed, rfl, goesOn⟩
    simp only [stripFront, find?_blockComments listed, List.drop_left, after?_eq_none_iff.2 goesOn]

/-- A comment that is open behind lines was so in front of them or begins on one of them, and does
not end on those that follow. -/
theorem openAfter_eq_some_iff {opened : Option OpenComment} {number : Nat}
    {raws : List (List Char)} {comment : OpenComment} :
    openAfter opened number raws = some comment ↔
      (opened = some comment ∧ ∀ later ∈ raws, ¬comment.close <:+: Text.trim later) ∨
      ∃ before raw after line, raws = before ++ raw :: after ∧
        comment.line = number + before.length ∧
        uncovered? (openAfter opened number before) raw = some line ∧
        Begins comment.close line ∧ ∀ later ∈ after, ¬comment.close <:+: Text.trim later := by
  induction raws generalizing opened number with
  | nil => simp [openAfter]
  | cons raw raws ih =>
    rw [openAfter, ih]
    constructor
    · rintro (⟨opens, lasts⟩ | ⟨before, raw', after, line, rfl, number_eq, left, begins, lasts⟩)
      · cases left : uncovered? opened raw with
        | none =>
          rw [strip_of_covered left] at opens
          cases opens
          refine .inl ⟨rfl, List.forall_mem_cons.2 ⟨?_, lasts⟩⟩
          exact after?_eq_none_iff.1 (Option.map_eq_none_iff.1 left)
        | some line =>
          rw [opened_of_uncovered left, opened_stripFront_iff] at opens
          exact .inr ⟨[], raw, raws, line, rfl, opens.1, left, opens.2, lasts⟩
      · refine .inr ⟨raw :: before, raw', after, line, rfl, ?_, left, begins, lasts⟩
        rw [number_eq, List.length_cons]
        omega
    · rintro (⟨rfl, lasts⟩ | ⟨before, raw', after, line, split, number_eq, left, begins, lasts⟩)
      · have covered : uncovered? (some comment) raw = none :=
          Option.map_eq_none_iff.2 (after?_eq_none_iff.2 (lasts raw List.mem_cons_self))
        rw [strip_of_covered covered]
        exact .inl ⟨rfl, fun later member => lasts later (.tail _ member)⟩
      · cases before with
        | nil =>
          cases split
          rw [openAfter] at left
          rw [opened_of_uncovered left, opened_stripFront_iff]
          exact .inl ⟨⟨number_eq, begins⟩, lasts⟩
        | cons _ before =>
          cases split
          refine .inr ⟨before, raw', after, line, rfl, ?_, left, begins, lasts⟩
          rw [number_eq, List.length_cons]
          omega

/-- On the line of this number a comment begins that has no end. -/
def Unended (page : List (List Char)) (number : Nat) : Prop :=
  ∃ before raw after line close, page = before ++ raw :: after ∧ number = before.length + 1 ∧
    uncovered? (openAfter none 1 before) raw = some line ∧ Begins close line ∧
    ∀ later ∈ after, ¬close <:+: Text.trim later

theorem unended_iff {page : List (List Char)} {number : Nat} :
    Unended page number ↔ ∃ comment, openAfter none 1 page = some comment ∧
      comment.line = number := by
  simp only [openAfter_eq_some_iff, reduceCtorEq, false_and, false_or]
  constructor
  · rintro ⟨before, raw, after, line, close, split, rfl, left, begins, lasts⟩
    exact ⟨⟨close, before.length + 1⟩,
      ⟨before, raw, after, line, split, Nat.add_comm _ _, left, begins, lasts⟩, rfl⟩
  · rintro ⟨comment, ⟨before, raw, after, line, split, number_eq, left, begins, lasts⟩, rfl⟩
    exact ⟨before, raw, after, line, comment.close, split, number_eq.trans (Nat.add_comm _ _), left,
      begins, lasts⟩

/-! ## Texts -/

/-- Where the reading of a text stops that cannot be read. -/
inductive StopsAt (page : List (List Char)) : Nat → Prop where
  /-- The first line with which no more lines could make whole blocks. -/
  | line {n : Nat} (inside : n < page.length) (viable : Viable (signs none 1 (page.take n)))
    (broken : ¬Viable (signs none 1 (page.take (n + 1)))) : StopsAt page (n + 1)
  | comment {number : Nat} (viable : Viable (signs none 1 page)) (unended : Unended page number) :
    StopsAt page number
  | last (viable : Viable (signs none 1 page)) (ended : ∀ number, ¬Unended page number)
    (unfinished : ∀ records, ¬Blocks (signs none 1 page) records) : StopsAt page page.length

theorem viable_take {page : List (List Char)} {m n : Nat} (le : m ≤ n)
    (viable : Viable (signs none 1 (page.take n))) : Viable (signs none 1 (page.take m)) := by
  have whole : page.take n = page.take m ++ (page.take n).drop m := by
    rw [← Nat.min_eq_left le, ← List.take_take, Nat.min_eq_left le, List.take_append_drop]
  rw [whole, signs_append] at viable
  exact viable.of_append

namespace StopsAt

variable {page : List (List Char)}

theorem not_viable {n : Nat} (inside : n < page.length)
    (broken : ¬Viable (signs none 1 (page.take (n + 1)))) : ¬Viable (signs none 1 page) := by
  intro viable
  rw [← List.take_length (l := page)] at viable
  exact broken (viable_take inside viable)

theorem le_of_line {m n : Nat} (viable : Viable (signs none 1 (page.take m)))
    (broken : ¬Viable (signs none 1 (page.take (n + 1)))) : m ≤ n := by
  by_contra more
  exact broken (viable_take (Nat.lt_of_not_le more) viable)

/-- Reading stops on one line only. -/
theorem unique {m n : Nat} (here : StopsAt page m) (there : StopsAt page n) : m = n := by
  cases here with
  | line inside viable broken =>
    cases there with
    | line _ viable' broken' =>
      exact congrArg (· + 1)
        (Nat.le_antisymm (le_of_line viable broken') (le_of_line viable' broken))
    | comment viable' => exact absurd viable' (not_viable inside broken)
    | last viable' => exact absurd viable' (not_viable inside broken)
  | comment viable unended =>
    cases there with
    | line inside _ broken => exact absurd viable (not_viable inside broken)
    | comment _ unended' =>
      obtain ⟨_, opened, rfl⟩ := unended_iff.1 unended
      obtain ⟨_, opened', rfl⟩ := unended_iff.1 unended'
      rw [opened] at opened'
      cases opened'
      rfl
    | last _ ended => exact absurd unended (ended m)
  | last viable ended =>
    cases there with
    | line inside _ broken => exact absurd viable (not_viable inside broken)
    | comment _ unended => exact absurd unended (ended n)
    | last => rfl

end StopsAt

theorem openAfter_eq_none_iff {page : List (List Char)} :
    openAfter none 1 page = none ↔ ∀ number, ¬Unended page number := by
  simp only [unended_iff, Option.eq_none_iff_forall_ne_some]
  constructor
  · rintro closed _ ⟨comment, opened, _⟩
    exact closed comment opened
  · exact fun ended comment opened => ended comment.line ⟨comment, opened, rfl⟩

theorem blocks_of_sound {text : String} (sound : (scan text).2 = none) :
    openAfter none 1 (lines text.toList) = none ∧
      Blocks (signs none 1 (lines text.toList)) ((scan text).1.map Located.record) := by
  have sound : (({} : Reading).scan 1 (lines text.toList)).2 = none := sound
  exact Reading.blocks_of_scan sound

/-- A text has no fault exactly if its lines make up whole blocks and no comment is left open. -/
theorem scan_sound_iff {text : String} : (scan text).2 = none ↔
    openAfter none 1 (lines text.toList) = none ∧
      ∃ records, Blocks (signs none 1 (lines text.toList)) records := by
  constructor
  · intro sound
    obtain ⟨closed, blocks⟩ := blocks_of_sound sound
    exact ⟨closed, _, blocks⟩
  · rintro ⟨closed, records, blocks⟩
    cases faulty : (scan text).2 with
    | none => rfl
    | some e =>
      have faulty : (({} : Reading).scan 1 (lines text.toList)).2 = some e := faulty
      have stops := Reading.stops_of_scan faulty
      rcases stops with ⟨before, raw, after, split, _, _, broken⟩ | ⟨_, ends⟩
      · have viable := blocks.viable
        rw [split, List.append_cons, signs_append] at viable
        exact absurd viable.of_append broken
      · rcases ends with ⟨_, opened, _⟩ | ⟨_, _, unfinished⟩
        · rw [show openAfter none 1 (lines text.toList) = some _ from opened] at closed
          cases closed
        · exact absurd blocks (unfinished records)

/-- How a text is read in which no scripts are compiled. -/
structure ReadInBlocks (policy : ImportPolicy) (text : String) : Prop where
  entries : ∀ line field value,
    (Content.text line).sign? = some (.entry field value) ↔ IsEntry line field value
  accepted : ∀ report, read none policy text = .ok report ↔
    (∀ number, ¬Unended (lines text.toList) number) ∧
      ∃ records, Blocks (signs none 1 (lines text.toList)) records ∧ report = ⟨records, 0⟩
  refused : ∀ number, (∃ cause, read none policy text = .error ⟨number, cause⟩) ↔
    StopsAt (lines text.toList) number

theorem read_none_eq_ok_iff {policy : ImportPolicy} {text : String} {report : ImportReport} :
    read none policy text = .ok report ↔ (∀ number, ¬Unended (lines text.toList) number) ∧
      ∃ records, Blocks (signs none 1 (lines text.toList)) records ∧ report = ⟨records, 0⟩ := by
  rw [← openAfter_eq_none_iff, read_eq_ok_iff]
  constructor
  · rintro ⟨sound, selected⟩
    obtain ⟨closed, blocks⟩ := blocks_of_sound sound
    cases selected
    exact ⟨closed, _, blocks, rfl⟩
  · rintro ⟨closed, records, blocks, rfl⟩
    have sound : (scan text).2 = none := scan_sound_iff.2 ⟨closed, records, blocks⟩
    obtain ⟨_, blocks'⟩ := blocks_of_sound sound
    refine ⟨sound, ?_⟩
    rw [blocks.unique blocks']
    rfl

theorem stopsAt_of_read {policy : ImportPolicy} {text : String} {e : ImportError}
    (faulty : read none policy text = .error e) : StopsAt (lines text.toList) e.line := by
  have fault : (scan text).2 = some e := by
    simpa [read_eq_error_iff, select] using faulty
  have fault : (({} : Reading).scan 1 (lines text.toList)).2 = some e := fault
  rcases Reading.stops_of_scan fault with
    ⟨before, raw, after, split, line, viable, broken⟩ | ⟨viable, ends⟩
  · have inside : before.length < (lines text.toList).length := by simp [split]
    have upTo : (lines text.toList).take before.length = before := by simp [split]
    have withIt : (lines text.toList).take (before.length + 1) = before ++ [raw] := by
      rw [split, List.append_cons]
      exact List.take_left' (by simp)
    rw [line, Nat.add_comm]
    exact .line inside (upTo.symm ▸ viable) (withIt.symm ▸ broken)
  · rcases ends with ⟨comment, opened, line⟩ | ⟨closed, line, unfinished⟩
    · exact .comment viable (unended_iff.2 ⟨comment, opened, line.symm⟩)
    · rw [line, Nat.add_sub_cancel_left]
      exact .last viable (openAfter_eq_none_iff.1 closed) unfinished

theorem not_read_of_stopsAt {policy : ImportPolicy} {text : String} {number : Nat}
    (stops : StopsAt (lines text.toList) number) (report : ImportReport) :
    read none policy text ≠ .ok report := by
  intro imported
  obtain ⟨ended, records, blocks, _⟩ := read_none_eq_ok_iff.1 imported
  cases stops with
  | line inside _ broken => exact StopsAt.not_viable inside broken blocks.viable
  | comment _ unended => exact ended number unended
  | last _ _ unfinished => exact unfinished records blocks

/-- Reading accepts exactly the texts that are whole blocks, and of any other text it names the line
that keeps it from being one. -/
theorem accepts_exactly_blocks (policy : ImportPolicy) (text : String) :
    ReadInBlocks policy text where
  entries _ _ _ := sign?_text_eq_entry_iff
  accepted _ := read_none_eq_ok_iff
  refused number := by
    constructor
    · rintro ⟨cause, faulty⟩
      exact stopsAt_of_read faulty
    · intro stops
      cases outcome : read none policy text with
      | ok report => exact absurd outcome (not_read_of_stopsAt stops report)
      | error e =>
        cases stops.unique (stopsAt_of_read outcome)
        exact ⟨e.cause, rfl⟩

end RuleText

end SignalRules
