import SignalRules.Proofs.Printing

/-! # Texts that were cut short

The front part of a readable text that cannot be read itself ends inside a list or a string, or in a
number behind its sign or its point. The reader never says that a text has ended too early: an item
that is not complete is reported where the outermost item starts, and a number without its places
at the point.
-/

namespace SignalRules

namespace Sexp

open Text (byteLength byteLength_append byteLength_eq_length)

/-- Some continuation makes the text readable. -/
def CutShort (text : String) : Prop :=
  ∃ more limit item, read (text ++ more) limit = .ok item

/-- A number without places. -/
def IsWhole (cs : List Char) : Prop :=
  ∃ ds, Digits ds ∧ (cs = ds ∨ cs = '-' :: ds)

/-- These characters cannot end here: a list or a string is open, or there is a sign only. -/
def IsOpen (cs : List Char) : Prop :=
  cs.head? = some '(' ∨ cs.head? = some '\'' ∨ cs = ['-']

/-! ## What is left of an item -/

theorem Digits.of_append {ds more : List Char} (digits : Digits (ds ++ more)) (nonempty : ds ≠ []) :
    Digits ds :=
  ⟨nonempty, fun c member => digits.2 c (List.mem_append_left _ member)⟩

/-- The front of a decimal is a decimal, unless it ends in the point. -/
theorem IsDecimal.front {cs front more : List Char} (decimal : IsDecimal cs)
    (split : front ++ more = cs) (nonempty : front ≠ []) :
    IsDecimal front ∨ ∃ ds, Digits ds ∧ front = ds ++ ['.'] := by
  cases decimal with
  | whole digits =>
    subst split
    exact .inl (.whole (digits.of_append nonempty))
  | @fraction ds places digits placeDigits =>
    rcases List.append_eq_append_iff.1 split with ⟨rest, rfl, _⟩ | ⟨rest, rfl, point⟩
    · exact .inl (.whole (digits.of_append nonempty))
    · cases rest with
      | nil =>
        rw [List.append_nil]
        exact .inl (.whole digits)
      | cons c rest =>
        obtain ⟨rfl, rfl⟩ := List.cons_eq_cons.1 point
        cases rest with
        | nil => exact .inr ⟨ds, digits, rfl⟩
        | cons d rest => exact .inl (.fraction digits (placeDigits.of_append (List.cons_ne_nil _ _)))

/-- The front of a number is a number, unless it is the sign or ends in the point. -/
theorem IsNumber.front {cs front more : List Char} (number : IsNumber cs)
    (split : front ++ more = cs) (nonempty : front ≠ []) :
    IsNumber front ∨ front = ['-'] ∨ ∃ whole, IsWhole whole ∧ front = whole ++ ['.'] := by
  cases number with
  | positive decimal =>
    rcases decimal.front split nonempty with decimal | ⟨ds, digits, rfl⟩
    · exact .inl (.positive decimal)
    · exact .inr (.inr ⟨ds, ⟨ds, digits, .inl rfl⟩, rfl⟩)
  | negative decimal =>
    cases front with
    | nil => exact absurd rfl nonempty
    | cons c front =>
      rw [List.cons_append, List.cons_eq_cons] at split
      obtain ⟨rfl, split⟩ := split
      by_cases alone : front = []
      · exact .inr (.inl (by rw [alone]))
      · rcases decimal.front split alone with decimal | ⟨ds, digits, rfl⟩
        · exact .inl (.negative decimal)
        · exact .inr (.inr ⟨'-' :: ds, ⟨ds, digits, .inr rfl⟩, rfl⟩)

theorem IsSymbol.front {cs front more : List Char} (symbol : IsSymbol cs)
    (split : front ++ more = cs) (nonempty : front ≠ []) : IsSymbol front := by
  obtain ⟨isAlpha, all⟩ := symbol
  cases front with
  | nil => exact absurd rfl nonempty
  | cons c front =>
    obtain ⟨rfl, rfl⟩ := List.cons_eq_cons.1 split
    exact .mk isAlpha fun c member => all c (List.mem_append_left _ member)

/-! ## Where the reader stops -/

theorem readItem_of_no_atom {input : List Char} (noList : ∀ inner, input ≠ '(' :: inner)
    (none : readAtom input = none) (fuel : Nat) : readItem fuel input = .error input := by
  cases fuel with
  | zero => rw [readItem]
  | succ fuel =>
    rw [readItem]
    · simp only [none]
    · exact noList

theorem readItem_open_string {cs : List Char} (plain : '\'' ∉ cs) (fuel : Nat) :
    readItem fuel ('\'' :: cs) = .error ('\'' :: cs) := by
  have unclosed : cs.dropWhile (· != '\'') = [] := by
    rw [List.dropWhile_eq_nil_iff]
    intro c member
    simp only [bne_iff_ne, ne_eq]
    rintro rfl
    exact plain member
  have noNumber := readNumber_eq_none (c := '\'') (by decide) (by decide) cs
  refine readItem_of_no_atom (by rintro _ ⟨⟩) ?_ fuel
  simp [readAtom, readString, unclosed, noNumber, readSymbol]

theorem readItem_sign (fuel : Nat) : readItem fuel ['-'] = .error ['-'] :=
  readItem_of_no_atom (by rintro _ ⟨⟩) rfl fuel

theorem readDecimal_point {ds : List Char} (digits : Digits ds) :
    readDecimal (ds ++ ['.']) = some (ds, ['.']) := by
  have stops : Stops Char.isDigit ['.'] := by
    intro c first
    cases first
    decide
  simp only [readDecimal, takeWhile_append_stops digits.2 stops,
    dropWhile_append_stops digits.2 stops, List.isEmpty_iff, if_neg digits.1, List.takeWhile_nil,
    if_true]

/-- A number is read up to its point if there are no places. -/
theorem readAtom_point {whole : List Char} (isWhole : IsWhole whole) :
    readAtom (whole ++ ['.']) = some (.number (String.ofList whole), ['.']) := by
  obtain ⟨ds, digits, rfl | rfl⟩ := isWhole
  · have decimal := readDecimal_point digits
    obtain ⟨nonempty, all⟩ := digits
    cases whole with
    | nil => exact absurd rfl nonempty
    | cons c ds =>
      have isDigit := all c List.mem_cons_self
      have noString := readString_eq_none (c := c) (by rintro rfl; cases isDigit) (ds ++ ['.'])
      have number : readNumber (c :: (ds ++ ['.'])) =
          some (.number (String.ofList (c :: ds)), ['.']) := by
        unfold readNumber
        split
        · rename_i same
          cases same
          cases isDigit
        · rw [← List.cons_append, decimal]
          rfl
      simp [readAtom, noString, number]
  · have noString := readString_eq_none (c := '-') (by decide) (ds ++ ['.'])
    simp [readAtom, noString, readNumber, readDecimal_point digits]

theorem readItem_point {whole : List Char} (isWhole : IsWhole whole) (fuel : Nat) :
    readItem (fuel + 1) (whole ++ ['.']) = .error ['.'] := by
  have atom := readAtom_point isWhole
  rw [readItem]
  · simp only [atom]
    rfl
  · intro inner same
    rw [same] at atom
    simp [readAtom, readString_eq_none, readNumber_eq_none, readSymbol] at atom

/-- A list is reported where it starts, unless all of it is there. -/
theorem readItem_open_list (fuel : Nat) (inner : List Char) :
    readItem fuel ('(' :: inner) = .error ('(' :: inner) ∨
      ∃ cs items rest, '(' :: inner = cs ++ rest ∧ Writes cs (.list items) := by
  cases fuel with
  | zero =>
    rw [readItem]
    exact .inl rfl
  | succ fuel =>
    rcases readInner : readItems fuel inner with ⟨items, after⟩
    obtain ⟨cs, rfl, written⟩ := writesAll_of_readItems readInner
    obtain ⟨gap, separators, whole⟩ := exists_gap after
    rw [readItem]
    simp only [readInner]
    cases closing : skipSeparators after with
    | nil => exact .inl rfl
    | cons c rest =>
      by_cases isClose : c = ')'
      · subst isClose
        rw [closing] at whole
        exact .inr ⟨'(' :: cs ++ gap ++ [')'], items, rest, by simp [whole], .list written separators⟩
      · left
        split
        · rfl
        · rename_i found
          split at found
          · rename_i same
            exact absurd (List.cons_eq_cons.1 same).1 isClose
          · cases found

/-- No written item goes on behind a list that is written at its front. -/
theorem eq_nil_of_writes_list {cs more : List Char} {items : List Sexp} {item : Sexp}
    (list : Writes cs (.list items)) (whole : Writes (cs ++ more) item) : more = [] := by
  have read : readItem (2 * (cs ++ more).length) (cs ++ more ++ []) = .ok (item, []) :=
    whole.readItem_eq rfl (Nat.le_refl _)
  cases list with
  | @list inner gap _ written separators =>
    have length : 2 * ('(' :: inner ++ gap ++ [')'] ++ more).length =
        2 * (inner ++ gap ++ ')' :: more).length + 1 + 1 := by
      simp only [List.length_append, List.length_cons, List.length_nil]
      omega
    have same : '(' :: inner ++ gap ++ [')'] ++ more ++ [] = '(' :: (inner ++ gap ++ ')' :: more) := by
      simp
    have room : 2 * inner.length < 2 * (inner ++ gap ++ ')' :: more).length + 1 := by
      simp only [List.length_append]
      omega
    rw [length, same, readItem] at read
    simp only [written.readItems_eq more separators room,
      skipSeparators_append separators (stops_close more)] at read
    split at read
    · cases read
      rfl
    · cases read

/-- A string that lacks something behind it is not closed. -/
theorem not_mem_of_string_front {text front rest : List Char} (plain : '\'' ∉ text)
    (complete : text ++ ['\''] = front ++ rest) (cut : rest ≠ []) : '\'' ∉ front := by
  rcases List.append_eq_append_iff.1 complete with ⟨part, rfl, closing⟩ | ⟨part, rfl, _⟩
  · cases part with
    | nil => simpa using plain
    | cons c part =>
      rw [List.cons_append, List.cons_eq_cons, eq_comm (a := []), List.append_eq_nil_iff] at closing
      exact absurd closing.2.2 cut
  · exact fun member => plain (List.mem_append_left _ member)

/-- The front of an item is an item, or the reader stops at its start or at its point. -/
theorem Writes.front {start rest : List Char} {item : Sexp} (written : Writes (start ++ rest) item)
    (nonempty : start ≠ []) :
    (∃ item, Writes start item) ∨ (IsOpen start ∧ ∀ fuel, readItem fuel start = .error start) ∨
      ∃ whole, IsWhole whole ∧ start = whole ++ ['.'] := by
  by_cases cut : rest = []
  · subst cut
    rw [List.append_nil] at written
    exact .inl ⟨item, written⟩
  generalize whole : start ++ rest = cs at written
  cases written with
  | symbol symbol => exact .inl ⟨_, .symbol (symbol.front whole nonempty)⟩
  | number number =>
    rcases number.front whole nonempty with number | rfl | point
    · exact .inl ⟨_, .number number⟩
    · exact .inr (.inl ⟨.inr (.inr rfl), readItem_sign⟩)
    · exact .inr (.inr point)
  | @string text plain =>
    cases start with
    | nil => exact absurd rfl nonempty
    | cons c front =>
      obtain ⟨rfl, complete⟩ := List.cons_eq_cons.1 whole
      have unclosed := not_mem_of_string_front plain complete.symm cut
      exact .inr (.inl ⟨.inr (.inl rfl), readItem_open_string unclosed⟩)
  | @list inner gap items writtenAll separators =>
    have list := Writes.list writtenAll separators
    rw [← whole] at list
    cases start with
    | nil => exact absurd rfl nonempty
    | cons c front =>
      obtain rfl : c = '(' := (List.cons_eq_cons.1 whole).1
      refine .inr (.inl ⟨.inl rfl, fun fuel => (readItem_open_list fuel front).resolve_right ?_⟩)
      -- a list that is complete in front of what was cut off cannot be the front of another
      rintro ⟨cs, _, more, same, complete⟩
      rw [same, List.append_assoc] at list
      exact cut (List.append_eq_nil_iff.1 (eq_nil_of_writes_list complete list)).2

/-! ## Reports -/

theorem ne_nil_of_readItem {fuel : Nat} {input rest : List Char} (nonempty : input ≠ [])
    (fault : readItem fuel input = .error rest) : rest ≠ [] := by
  rintro rfl
  cases fuel with
  | zero =>
    rw [readItem] at fault
    cases fault
    exact nonempty rfl
  | succ fuel =>
    -- an item that is followed by nothing is followed by a boundary
    have settle : ∀ found : Option (Sexp × List Char), (match found with
        | none => Except.error input
        | some (item, rest) => if isBoundary rest then .ok (item, rest) else .error rest) ≠
          .error [] := by
      rintro (_ | ⟨item, rest⟩) failed
      · cases failed
        exact nonempty rfl
      · simp only at failed
        split at failed
        · cases failed
        · rename_i noBoundary
          cases failed
          exact noBoundary rfl
    by_cases isList : ∃ inner, input = '(' :: inner
    · obtain ⟨inner, rfl⟩ := isList
      rw [readItem] at fault
      exact settle _ fault
    · rw [readItem] at fault
      · exact settle _ fault
      · exact fun inner same => isList ⟨inner, same⟩

theorem fault_eq {input front rest : List Char} (split : input = front ++ rest)
    (nonempty : rest ≠ []) (single : ∀ c ∈ front, c.utf8Size = 1) :
    fault input rest = .unexpected front.length (String.ofList (rest.take 16)) := by
  have position : byteLength input - byteLength rest = front.length := by
    rw [split, byteLength_append, byteLength_eq_length single]
    omega
  rw [fault, if_neg (by simp [nonempty]), position]

theorem fault_ne_end {input rest : List Char} (nonempty : rest ≠ []) (position : Nat) :
    fault input rest ≠ .unexpectedEnd position := by
  rw [fault, if_neg (by simp [nonempty])]
  exact nofun

theorem trim_eq_nil {cs : List Char} (blank : ∀ c ∈ cs, Text.isBlank c = true) :
    Text.trim cs = [] := by
  simp [Text.trim, List.dropWhile_eq_nil_iff.2 blank]

theorem skipSeparators_ne_nil {input : List Char} (visible : Text.trim input ≠ []) :
    skipSeparators input ≠ [] := by
  intro empty
  have separators := List.dropWhile_eq_nil_iff.1 empty
  exact visible (trim_eq_nil fun c member => isBlank_of_isSeparator (separators c member))

theorem read_ne_unexpectedEnd (text : String) (limit position : Nat) :
    read text limit ≠ .error (.unexpectedEnd position) := by
  unfold read
  simp only
  split
  · simp
  · rename_i visible
    have nonempty := skipSeparators_ne_nil (by simpa using visible)
    split
    · simp
    · unfold readChars
      split
      · rename_i rest stopped
        simpa using fault_ne_end (ne_nil_of_readItem nonempty stopped) position
      · split
        · simp
        · rename_i rest left
          simpa using fault_ne_end left position

/-- Where reading stops inside an item, this is reported. -/
theorem read_of_stopped {text : String} {limit : Nat} {front rest : List Char}
    (visible : Text.trim text.toList ≠ [])
    (shallow : exceedsDepth limit 0 false text.toList = false)
    (stopped : readItem (2 * text.toList.length + 2) (skipSeparators text.toList) = .error rest)
    (split : text.toList = front ++ rest) (single : ∀ c ∈ front, c.utf8Size = 1) :
    read text limit = .error (.unexpected front.length (String.ofList (rest.take 16))) := by
  have nonempty := ne_nil_of_readItem (skipSeparators_ne_nil visible) stopped
  simp only [read, List.isEmpty_iff, if_neg visible, shallow, Bool.false_eq_true, if_false,
    readChars, stopped, fault_eq split nonempty single]

theorem utf8Size_of_isSeparator {c : Char} (separator : isSeparator c = true) : c.utf8Size = 1 := by
  simp only [isSeparator, Bool.or_eq_true, beq_iff_eq] at separator
  rcases separator with ((rfl | rfl) | rfl) | rfl <;> decide

theorem IsWhole.utf8Size {whole : List Char} (isWhole : IsWhole whole) :
    ∀ c ∈ whole, c.utf8Size = 1 := by
  intro c member
  obtain ⟨ds, digits, rfl | rfl⟩ := isWhole
  · exact utf8Size_of_isSymbolChar (isSymbolChar_of_isDigit (digits.2 c member))
  · rcases List.mem_cons.1 member with rfl | member
    · rfl
    · exact utf8Size_of_isSymbolChar (isSymbolChar_of_isDigit (digits.2 c member))

/-! ## Texts -/

/-- A text that is readable but for white space behind it is readable. -/
theorem read_of_writes {text : String} {limit : Nat} {gap cs after : List Char} {item : Sexp}
    (split : text.toList = gap ++ (cs ++ after)) (separators : Separators gap)
    (separatorsAfter : Separators after) (written : Writes cs item)
    (shallow : exceedsDepth limit 0 false text.toList = false) : read text limit = .ok item := by
  refine read_eq_ok_iff.2 ⟨?_, gap, cs, after, split, separators, separatorsAfter, written⟩
  rw [split, exceedsDepth_neutral fun c member => .of_isSeparator (separators c member),
    written.exceedsDepth_eq (Nat.zero_le limit), Bool.or_eq_false_iff, Nat.zero_add] at shallow
  exact Nat.le_of_not_lt (of_decide_eq_false shallow.1)

/-- Of a readable text that was cut short, something is left that is readable itself or stops
inside an item. -/
theorem CutShort.cases {text : String} (cutShort : CutShort text)
    (visible : Text.trim text.toList ≠ []) :
    ∃ gap start, text.toList = gap ++ start ∧ Separators gap ∧ Stops isSeparator start ∧
      ((∃ cs after item, start = cs ++ after ∧ Separators after ∧ Writes cs item) ∨
        (IsOpen start ∧ ∀ fuel, readItem fuel start = .error start) ∨
          ∃ whole, IsWhole whole ∧ start = whole ++ ['.']) := by
  obtain ⟨more, limit, item, read⟩ := cutShort
  obtain ⟨_, before, cs, after, whole, separatorsBefore, separatorsAfter, written⟩ :=
    read_eq_ok_iff.1 read
  obtain ⟨gap, separators, split⟩ := exists_gap text.toList
  have nonempty := skipSeparators_ne_nil visible
  have stops : Stops isSeparator (skipSeparators text.toList) := stops_dropWhile _ _
  refine ⟨gap, _, split, separators, stops, ?_⟩
  generalize skipSeparators text.toList = start at split nonempty stops
  have continued : start ++ more.toList = cs ++ after := by
    have stops : Stops isSeparator (start ++ more.toList) := by
      cases start with
      | nil => exact absurd rfl nonempty
      | cons c start => exact stops
    rw [← skipSeparators_append separators stops, ← List.append_assoc, ← split,
      ← String.toList_append, whole]
    exact skipSeparators_append separatorsBefore (written.stops_isSeparator after)
  rcases List.append_eq_append_iff.1 continued with ⟨rest, rfl, _⟩ | ⟨rest, rfl, behind⟩
  · rcases written.front nonempty with ⟨item, written⟩ | unfinished
    · exact .inl ⟨start, [], item, (List.append_nil _).symm, List.forall_mem_nil _, written⟩
    · exact .inr unfinished
  · refine .inl ⟨cs, rest, item, rfl, fun c member => separatorsAfter c ?_, written⟩
    rw [behind]
    exact List.mem_append_left _ member

/-- The reader never says that a text ends too early. Of a readable text that was cut short, and
that is neither readable itself nor too deep, it reports the place where the item starts or, if a
number stops behind its point, the place of the point. -/
theorem cut_short_reported (text : String) (limit : Nat) :
    (∀ position, read text limit ≠ .error (.unexpectedEnd position)) ∧
    (CutShort text → Text.trim text.toList ≠ [] → exceedsDepth limit 0 false text.toList = false →
      (∀ item, read text limit ≠ .ok item) →
        ∃ gap start, text.toList = gap ++ start ∧ Separators gap ∧
          (IsOpen start ∧ read text limit =
              .error (.unexpected gap.length (String.ofList (start.take 16))) ∨
            ∃ whole, IsWhole whole ∧ start = whole ++ ['.'] ∧ read text limit =
              .error (.unexpected (gap.length + whole.length) "."))) := by
  refine ⟨read_ne_unexpectedEnd text limit, fun cutShort visible shallow unreadable => ?_⟩
  obtain ⟨gap, start, split, separators, stops, left⟩ := cutShort.cases visible
  have gapSingle : ∀ c ∈ gap, c.utf8Size = 1 := fun c member =>
    utf8Size_of_isSeparator (separators c member)
  have skipped : skipSeparators text.toList = start := by
    rw [split]
    exact skipSeparators_append separators stops
  refine ⟨gap, start, split, separators, ?_⟩
  rcases left with ⟨cs, after, item, rfl, separatorsAfter, written⟩ | ⟨isOpen, stopped⟩ |
    ⟨whole, isWhole, rfl⟩
  · exact absurd (read_of_writes split separators separatorsAfter written shallow) (unreadable item)
  · refine .inl ⟨isOpen, ?_⟩
    exact read_of_stopped visible shallow (by rw [skipped]; exact stopped _) split gapSingle
  · refine .inr ⟨whole, isWhole, rfl, ?_⟩
    have single : ∀ c ∈ gap ++ whole, c.utf8Size = 1 := fun c member =>
      (List.mem_append.1 member).elim (gapSingle c) (isWhole.utf8Size c)
    rw [← List.append_assoc] at split
    have report := read_of_stopped visible shallow (by rw [skipped]; exact readItem_point isWhole _)
      split single
    rw [List.length_append] at report
    exact report

/-- What is reported of a text that cannot be read. -/
def report? (text : String) (limit : Nat) : Option ReadError :=
  match read text limit with
  | .ok _ => none
  | .error error => some error

theorem report?_eq_some_iff {text : String} {limit : Nat} {error : ReadError} :
    report? text limit = some error ↔ read text limit = .error error := by
  unfold report?
  cases read text limit <;> simp

theorem ne_ok_of_report {text : String} {limit : Nat} {error : ReadError}
    (report : read text limit = .error error) (item : Sexp) : read text limit ≠ .ok item := by
  rw [report]
  exact nofun

theorem cutShort_of_readable {text : String} (limit : Nat) (more : String)
    (readable : report? (text ++ more) limit = none) : CutShort text := by
  cases found : read (text ++ more) limit with
  | ok item => exact ⟨more, limit, item, found⟩
  | error error =>
    rw [report?_eq_some_iff.2 found] at readable
    cases readable

theorem read_comparison : read "(eq 1 2" 32 = .error (.unexpected 0 "(eq 1 2") :=
  report?_eq_some_iff.1 (by decide +kernel)

theorem cutShort_comparison : CutShort "(eq 1 2" :=
  cutShort_of_readable 32 ")" (by decide +kernel)

theorem read_fraction : read " -1." 32 = .error (.unexpected 3 ".") :=
  report?_eq_some_iff.1 (by decide +kernel)

theorem cutShort_fraction : CutShort " -1." :=
  cutShort_of_readable 32 "5" (by decide +kernel)

/-- A list that is not closed is reported at its start, a number without its places at the point. -/
theorem comparison_reported :
    (CutShort "(eq 1 2" ∧ (∀ item, read "(eq 1 2" 32 ≠ .ok item) ∧
      ∃ gap start, "(eq 1 2".toList = gap ++ start ∧ IsOpen start ∧
        read "(eq 1 2" 32 = .error (.unexpected gap.length (String.ofList (start.take 16)))) ∧
    CutShort " -1." ∧ (∀ item, read " -1." 32 ≠ .ok item) ∧
      ∃ gap whole, " -1.".toList = gap ++ (whole ++ ['.']) ∧ IsWhole whole ∧
        read " -1." 32 = .error (.unexpected (gap.length + whole.length) ".") := by
  have list := ne_ok_of_report read_comparison
  have fraction := ne_ok_of_report read_fraction
  refine ⟨⟨cutShort_comparison, list, ?_⟩, cutShort_fraction, fraction, ?_⟩
  · obtain ⟨gap, start, split, _, ⟨isOpen, report⟩ | ⟨whole, _, rfl, report⟩⟩ :=
      (cut_short_reported "(eq 1 2" 32).2 cutShort_comparison (by decide) (by decide) list
    · exact ⟨gap, start, split, isOpen, report⟩
    · rw [read_comparison, Except.error.injEq, ReadError.unexpected.injEq] at report
      exact absurd report.2 (by decide)
  · obtain ⟨gap, start, split, _, ⟨isOpen, report⟩ | ⟨whole, isWhole, rfl, report⟩⟩ :=
      (cut_short_reported " -1." 32).2 cutShort_fraction (by decide) (by decide) fraction
    · rw [read_fraction, Except.error.injEq, ReadError.unexpected.injEq] at report
      have left : start = ['.'] := by
        have behind : (gap ++ start).drop gap.length = start := List.drop_left
        rw [← behind, ← split, ← report.1]
        rfl
      simp [IsOpen, left] at isOpen
    · exact ⟨gap, whole, split, isWhole, report⟩

/-- That the text has ended is not what is reported of a list that is not closed. -/
theorem not_end_reported : ¬ ∀ text limit, Text.trim text.toList ≠ [] →
    (∀ item, read text limit ≠ .ok item) → exceedsDepth limit 0 false text.toList = false →
    CutShort text → read text limit = .error (.unexpectedEnd (byteLength text.toList)) := by
  intro claimed
  have report := claimed "(eq 1 2" 32 (by decide) (ne_ok_of_report read_comparison) (by decide)
    cutShort_comparison
  rw [read_comparison] at report
  cases report

end Sexp

end SignalRules
