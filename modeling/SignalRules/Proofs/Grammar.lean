import Mathlib.Data.List.TakeWhile
import SignalRules.Sexp.Reader

/-! # The grammar of items

What texts write an item, apart from how a reader finds out, and that the reader accepts them and
no others. An item can be written in many ways, which differ in their separators only.
-/

namespace SignalRules

namespace Sexp

def Separators (cs : List Char) : Prop :=
  ∀ c ∈ cs, isSeparator c = true

def Digits (cs : List Char) : Prop :=
  cs ≠ [] ∧ ∀ c ∈ cs, c.isDigit = true

inductive IsDecimal : List Char → Prop where
  | whole {ds : List Char} : Digits ds → IsDecimal ds
  | fraction {ds places : List Char} : Digits ds → Digits places → IsDecimal (ds ++ '.' :: places)

inductive IsNumber : List Char → Prop where
  | positive {cs : List Char} : IsDecimal cs → IsNumber cs
  | negative {cs : List Char} : IsDecimal cs → IsNumber ('-' :: cs)

inductive IsSymbol : List Char → Prop where
  | mk {c : Char} {cs : List Char} : c.isAlpha = true → (∀ c ∈ cs, isSymbolChar c = true) →
    IsSymbol (c :: cs)

mutual

/-- The characters write the item. -/
inductive Writes : List Char → Sexp → Prop where
  | symbol {cs : List Char} : IsSymbol cs → Writes cs (.symbol (String.ofList cs))
  | number {cs : List Char} : IsNumber cs → Writes cs (.number (String.ofList cs))
  | string {cs : List Char} : '\'' ∉ cs → Writes ('\'' :: cs ++ ['\'']) (.string (String.ofList cs))
  | list {inner gap : List Char} {items : List Sexp} : WritesAll inner items → Separators gap →
    Writes ('(' :: inner ++ gap ++ [')']) (.list items)

/-- The characters write the items, with separators between any two and perhaps in front. -/
inductive WritesAll : List Char → List Sexp → Prop where
  | nil : WritesAll [] []
  | cons {gap cs more : List Char} {item : Sexp} {items : List Sexp} : Separators gap →
    Writes cs item → isBoundary more = true → WritesAll more items →
      WritesAll (gap ++ cs ++ more) (item :: items)

end

/-! ## Characters -/

theorem not_isDigit_of_isSeparator {c : Char} (separator : isSeparator c = true) :
    c.isDigit = false := by
  simp only [isSeparator, Bool.or_eq_true, beq_iff_eq] at separator
  rcases separator with ((rfl | rfl) | rfl) | rfl <;> decide

theorem not_isSymbolChar_of_isSeparator {c : Char} (separator : isSeparator c = true) :
    isSymbolChar c = false := by
  simp only [isSeparator, Bool.or_eq_true, beq_iff_eq] at separator
  rcases separator with ((rfl | rfl) | rfl) | rfl <;> decide

theorem isBlank_of_isSeparator {c : Char} (separator : isSeparator c = true) :
    Text.isBlank c = true := by
  simp only [isSeparator, Bool.or_eq_true, beq_iff_eq] at separator
  rcases separator with ((rfl | rfl) | rfl) | rfl <;> decide

theorem toNat_of_isDigit {c : Char} (isDigit : c.isDigit = true) :
    48 ≤ c.toNat ∧ c.toNat ≤ 57 := by
  simpa [Char.isDigit, UInt32.le_iff_toNat_le] using isDigit

theorem toNat_of_isAlpha {c : Char} (isAlpha : c.isAlpha = true) :
    65 ≤ c.toNat ∧ c.toNat ≤ 90 ∨ 97 ≤ c.toNat ∧ c.toNat ≤ 122 := by
  rcases Bool.or_eq_true_iff.1 isAlpha with isUpper | isLower
  · have bounds := of_decide_eq_true isUpper
    exact .inl ⟨UInt32.le_iff_toNat_le.1 bounds.1, UInt32.le_iff_toNat_le.1 bounds.2⟩
  · have bounds := Bool.and_eq_true_iff.1 isLower
    exact .inr ⟨UInt32.le_iff_toNat_le.1 (of_decide_eq_true bounds.1),
      UInt32.le_iff_toNat_le.1 (of_decide_eq_true bounds.2)⟩

theorem not_isDigit_of_isAlpha {c : Char} (isAlpha : c.isAlpha = true) : c.isDigit = false := by
  rw [← Bool.not_eq_true]
  intro isDigit
  have letter := toNat_of_isAlpha isAlpha
  have digit := toNat_of_isDigit isDigit
  omega

/-- A visible ASCII character is not blank. -/
theorem not_isBlank_of_toNat {c : Char} (least : 33 ≤ c.toNat) (most : c.toNat ≤ 126) :
    Text.isBlank c = false := by
  simp only [Text.isBlank, Bool.or_eq_false_iff, Bool.and_eq_false_iff, decide_eq_false_iff_not,
    beq_eq_false_iff_ne]
  omega

theorem not_isBlank_of_isSymbolChar {c : Char} (symbolChar : isSymbolChar c = true) :
    Text.isBlank c = false := by
  simp only [isSymbolChar, Char.isAlphanum, Bool.or_eq_true, beq_iff_eq] at symbolChar
  rcases symbolChar with (((isAlpha | isDigit) | rfl) | rfl) | rfl
  · have letter := toNat_of_isAlpha isAlpha
    exact not_isBlank_of_toNat (by omega) (by omega)
  · have digit := toNat_of_isDigit isDigit
    exact not_isBlank_of_toNat (by omega) (by omega)
  all_goals decide

/-- Taking characters off the front while they are of one kind stops at once. -/
def Stops (p : Char → Bool) (cs : List Char) : Prop :=
  ∀ c ∈ cs.head?, p c = false

theorem Stops.of_isBoundary {p : Char → Bool} (close : p ')' = false)
    (separators : ∀ {c}, isSeparator c = true → p c = false) {cs : List Char}
    (boundary : isBoundary cs = true) : Stops p cs := by
  intro c first
  cases cs with
  | nil => cases first
  | cons c' cs =>
    cases first
    simp only [isBoundary, Bool.or_eq_true, beq_iff_eq] at boundary
    rcases boundary with rfl | separator
    · exact close
    · exact separators separator

theorem stops_isDigit {cs : List Char} (boundary : isBoundary cs = true) :
    Stops Char.isDigit cs :=
  .of_isBoundary (by decide) not_isDigit_of_isSeparator boundary

theorem stops_isSymbolChar {cs : List Char} (boundary : isBoundary cs = true) :
    Stops isSymbolChar cs :=
  .of_isBoundary (by decide) not_isSymbolChar_of_isSeparator boundary

theorem takeWhile_append_stops {p : Char → Bool} {cs rest : List Char}
    (all : ∀ c ∈ cs, p c = true) (stops : Stops p rest) : (cs ++ rest).takeWhile p = cs := by
  rw [List.takeWhile_append_of_pos all]
  cases rest with
  | nil => simp
  | cons c rest => simp [stops c rfl]

theorem dropWhile_append_stops {p : Char → Bool} {cs rest : List Char}
    (all : ∀ c ∈ cs, p c = true) (stops : Stops p rest) : (cs ++ rest).dropWhile p = rest := by
  rw [List.dropWhile_append_of_pos all]
  cases rest with
  | nil => rfl
  | cons c rest => simp [stops c rfl]

theorem skipSeparators_append {gap cs : List Char} (separators : Separators gap)
    (stops : Stops isSeparator cs) : skipSeparators (gap ++ cs) = cs :=
  dropWhile_append_stops separators stops

theorem stops_dropWhile (p : Char → Bool) (cs : List Char) : Stops p (cs.dropWhile p) := by
  intro c first
  have stopped := List.head?_dropWhile_not p cs
  rw [Option.mem_def.1 first] at stopped
  exact stopped

/-- What is skipped are separators, and nothing is left to skip. -/
theorem exists_gap (input : List Char) :
    ∃ gap, Separators gap ∧ input = gap ++ skipSeparators input :=
  ⟨input.takeWhile isSeparator, fun _ => List.mem_takeWhile_imp, List.takeWhile_append_dropWhile.symm⟩

/-! ## Atoms -/

theorem readDecimal_append {cs rest : List Char} (decimal : IsDecimal cs)
    (boundary : isBoundary rest = true) : readDecimal (cs ++ rest) = some (cs, rest) := by
  have restStops := stops_isDigit boundary
  cases decimal with
  | whole digits =>
    obtain ⟨nonempty, all⟩ := digits
    simp only [readDecimal, takeWhile_append_stops all restStops,
      dropWhile_append_stops all restStops, List.isEmpty_iff, if_neg nonempty]
    cases rest with
    | nil => rfl
    | cons c rest =>
      split
      · rename_i more same
        cases same
        cases boundary
      · rfl
  | @fraction ds places digits placeDigits =>
    obtain ⟨nonempty, all⟩ := digits
    obtain ⟨placesNonempty, placesAll⟩ := placeDigits
    have pointStops : Stops Char.isDigit ('.' :: (places ++ rest)) := by
      intro c first
      cases first
      decide
    rw [List.append_assoc, List.cons_append]
    simp only [readDecimal, takeWhile_append_stops all pointStops,
      dropWhile_append_stops all pointStops, List.isEmpty_iff, if_neg nonempty,
      takeWhile_append_stops placesAll restStops, dropWhile_append_stops placesAll restStops,
      if_neg placesNonempty]

theorem isDecimal_of_readDecimal {input cs rest : List Char}
    (read : readDecimal input = some (cs, rest)) : input = cs ++ rest ∧ IsDecimal cs := by
  unfold readDecimal at read
  have whole := List.takeWhile_append_dropWhile (p := Char.isDigit) (l := input)
  simp only [List.isEmpty_iff] at read
  split at read
  · cases read
  · rename_i nonempty
    have digits : Digits (input.takeWhile Char.isDigit) := ⟨nonempty, fun _ => List.mem_takeWhile_imp⟩
    split at read
    · rename_i more point
      rw [point] at whole
      split at read
      · cases read
        exact ⟨whole.symm, .whole digits⟩
      · rename_i placesNonempty
        cases read
        refine ⟨?_, .fraction digits ⟨placesNonempty, fun _ => List.mem_takeWhile_imp⟩⟩
        rw [List.append_assoc, List.cons_append, List.takeWhile_append_dropWhile]
        exact whole.symm
    · cases read
      exact ⟨whole.symm, .whole digits⟩

theorem IsDecimal.exists_digit {cs : List Char} (decimal : IsDecimal cs) :
    ∃ c more, cs = c :: more ∧ c.isDigit = true := by
  have starts : ∀ {ds : List Char}, Digits ds → ∃ c more, ds = c :: more ∧ c.isDigit = true := by
    rintro (_ | ⟨c, more⟩) ⟨nonempty, all⟩
    · exact absurd rfl nonempty
    · exact ⟨c, more, rfl, all c (by simp)⟩
  cases decimal with
  | whole digits => exact starts digits
  | fraction digits _ =>
    obtain ⟨c, more, rfl, isDigit⟩ := starts digits
    exact ⟨c, _, rfl, isDigit⟩

theorem readNumber_append {cs rest : List Char} (number : IsNumber cs)
    (boundary : isBoundary rest = true) :
    readNumber (cs ++ rest) = some (.number (String.ofList cs), rest) := by
  cases number with
  | negative decimal =>
    simp only [List.cons_append, readNumber, readDecimal_append decimal boundary, Option.map_some]
  | positive decimal =>
    have read := readDecimal_append decimal boundary
    obtain ⟨c, more, rfl, isDigit⟩ := decimal.exists_digit
    unfold readNumber
    split
    · rename_i same
      cases same
      cases isDigit
    · rw [read]
      rfl

theorem writes_of_readNumber {input rest : List Char} {item : Sexp}
    (read : readNumber input = some (item, rest)) : ∃ cs, input = cs ++ rest ∧ Writes cs item := by
  unfold readNumber at read
  split at read
  · obtain ⟨⟨cs, _⟩, decimal, same⟩ := Option.map_eq_some_iff.1 read
    obtain ⟨rfl, isDecimal⟩ := isDecimal_of_readDecimal decimal
    cases same
    exact ⟨'-' :: cs, rfl, .number (.negative isDecimal)⟩
  · obtain ⟨⟨cs, _⟩, decimal, same⟩ := Option.map_eq_some_iff.1 read
    obtain ⟨rfl, isDecimal⟩ := isDecimal_of_readDecimal decimal
    cases same
    exact ⟨cs, rfl, .number (.positive isDecimal)⟩

theorem readSymbol_append {cs rest : List Char} (symbol : IsSymbol cs)
    (boundary : isBoundary rest = true) :
    readSymbol (cs ++ rest) = some (.symbol (String.ofList cs), rest) := by
  obtain ⟨isAlpha, all⟩ := symbol
  have stops := stops_isSymbolChar boundary
  simp only [List.cons_append, readSymbol, if_pos isAlpha, takeWhile_append_stops all stops,
    dropWhile_append_stops all stops]

theorem writes_of_readSymbol {input rest : List Char} {item : Sexp}
    (read : readSymbol input = some (item, rest)) : ∃ cs, input = cs ++ rest ∧ Writes cs item := by
  unfold readSymbol at read
  split at read
  · rename_i c input
    split at read
    · rename_i isAlpha
      cases read
      exact ⟨c :: input.takeWhile isSymbolChar,
        by rw [List.cons_append, List.takeWhile_append_dropWhile],
        .symbol (.mk isAlpha fun _ => List.mem_takeWhile_imp)⟩
    · cases read
  · cases read

theorem readString_append {cs rest : List Char} (plain : '\'' ∉ cs) :
    readString ('\'' :: cs ++ ['\''] ++ rest) = some (.string (String.ofList cs), rest) := by
  have all : ∀ c ∈ cs, (c != '\'') = true := by
    rintro c member
    simp only [bne_iff_ne, ne_eq]
    rintro rfl
    exact plain member
  have stops : Stops (· != '\'') ('\'' :: rest) := by
    intro c first
    cases first
    rfl
  have same : '\'' :: cs ++ ['\''] ++ rest = '\'' :: (cs ++ '\'' :: rest) := by simp
  rw [same]
  simp only [readString, takeWhile_append_stops all stops, dropWhile_append_stops all stops]

theorem writes_of_readString {input rest : List Char} {item : Sexp}
    (read : readString input = some (item, rest)) : ∃ cs, input = cs ++ rest ∧ Writes cs item := by
  unfold readString at read
  split at read
  · rename_i input
    split at read
    · rename_i c more left
      cases read
      have whole := List.takeWhile_append_dropWhile (p := (· != '\'')) (l := input)
      have isQuote : c = '\'' := by
        have stops := stops_dropWhile (· != '\'') input c (by rw [left]; rfl)
        simpa using stops
      rw [left, isQuote] at whole
      refine ⟨'\'' :: input.takeWhile (· != '\'') ++ ['\''], ?_, .string fun member => ?_⟩
      · simp [whole]
      · simpa using List.mem_takeWhile_imp member
    · cases read
  · cases read

theorem readString_eq_none {c : Char} (noQuote : c ≠ '\'') (input : List Char) :
    readString (c :: input) = none := by
  unfold readString
  split
  · rename_i same
    cases same
    exact absurd rfl noQuote
  · rfl

theorem readNumber_eq_none {c : Char} (noSign : c ≠ '-') (noDigit : c.isDigit = false)
    (input : List Char) : readNumber (c :: input) = none := by
  unfold readNumber
  split
  · rename_i same
    cases same
    exact absurd rfl noSign
  · simp [readDecimal, noDigit]

/-- Which reader takes an atom is settled by its first character. -/
theorem readAtom_append {cs rest : List Char} {item : Sexp} (writes : Writes cs item)
    (atom : ∀ items, item ≠ .list items) (boundary : isBoundary rest = true) :
    readAtom (cs ++ rest) = some (item, rest) := by
  cases writes with
  | string plain => simp only [readAtom, readString_append plain, Option.orElse_eq_orElse,
      Option.orElse_eq_or, Option.some_or]
  | number number =>
    have read := readNumber_append number boundary
    have noString : readString (cs ++ rest) = none := by
      cases number with
      | negative _ => exact readString_eq_none (by decide) _
      | positive decimal =>
        obtain ⟨c, more, rfl, isDigit⟩ := decimal.exists_digit
        exact readString_eq_none (by rintro rfl; cases isDigit) _
    simp only [readAtom, noString, read, Option.orElse_eq_orElse, Option.orElse_eq_or,
      Option.none_or, Option.some_or]
  | symbol symbol =>
    have read := readSymbol_append symbol boundary
    obtain @⟨c, cs, isAlpha, _⟩ := symbol
    have noString := readString_eq_none (c := c) (by rintro rfl; cases isAlpha)
    have noNumber := readNumber_eq_none (by rintro rfl; cases isAlpha)
      (not_isDigit_of_isAlpha isAlpha)
    rw [List.cons_append] at read ⊢
    simp only [readAtom, noString, noNumber, read, Option.orElse_eq_orElse, Option.orElse_eq_or,
      Option.none_or]
  | list => exact absurd rfl (atom _)

theorem writes_of_readAtom {input rest : List Char} {item : Sexp}
    (read : readAtom input = some (item, rest)) : ∃ cs, input = cs ++ rest ∧ Writes cs item := by
  simp only [readAtom, Option.orElse_eq_orElse, Option.orElse_eq_or, Option.or_eq_some_iff] at read
  rcases read with read | ⟨_, read | ⟨_, read⟩⟩
  · exact writes_of_readString read
  · exact writes_of_readNumber read
  · exact writes_of_readSymbol read

/-! ## Items -/

/-- An item starts with a character that is neither blank nor a closing parenthesis. -/
theorem Writes.exists_head {cs : List Char} {item : Sexp} (writes : Writes cs item) :
    ∃ c more, cs = c :: more ∧ c ≠ ')' ∧ Text.isBlank c = false := by
  cases writes with
  | string _ => exact ⟨'\'', _, rfl, by decide, by decide⟩
  | list _ _ => exact ⟨'(', _, rfl, by decide, by decide⟩
  | number number =>
    cases number with
    | negative _ => exact ⟨'-', _, rfl, by decide, by decide⟩
    | positive decimal =>
      obtain ⟨c, more, rfl, isDigit⟩ := decimal.exists_digit
      exact ⟨c, more, rfl, (by rintro rfl; cases isDigit),
        not_isBlank_of_isSymbolChar (by simp [isSymbolChar, Char.isAlphanum, isDigit])⟩
  | symbol symbol =>
    obtain @⟨c, more, isAlpha, _⟩ := symbol
    exact ⟨c, more, rfl, (by rintro rfl; cases isAlpha),
      not_isBlank_of_isSymbolChar (by simp [isSymbolChar, Char.isAlphanum, isAlpha])⟩

theorem Writes.stops_isSeparator {cs : List Char} {item : Sexp} (writes : Writes cs item)
    (rest : List Char) : Stops isSeparator (cs ++ rest) := by
  obtain ⟨c, more, rfl, _, notBlank⟩ := writes.exists_head
  intro c' first
  cases first
  rw [← Bool.not_eq_true]
  intro separator
  rw [isBlank_of_isSeparator separator] at notBlank
  cases notBlank

theorem Writes.length_pos {cs : List Char} {item : Sexp} (writes : Writes cs item) :
    0 < cs.length := by
  obtain ⟨_, _, rfl, _, _⟩ := writes.exists_head
  simp

theorem stops_close (rest : List Char) : Stops isSeparator (')' :: rest) := by
  intro c first
  cases first
  decide

theorem isBoundary_append {cs rest : List Char} (first : isBoundary cs = true)
    (second : isBoundary rest = true) : isBoundary (cs ++ rest) = true := by
  cases cs with
  | nil => exact second
  | cons c cs => exact first

theorem Separators.isBoundary {gap : List Char} (separators : Separators gap) :
    Sexp.isBoundary gap = true := by
  cases gap with
  | nil => rfl
  | cons c gap => simp [Sexp.isBoundary, separators c (by simp)]

theorem readItem_atom {fuel : Nat} {input rest : List Char} {item : Sexp}
    (noList : ∀ inner, input ≠ '(' :: inner) (read : readAtom input = some (item, rest))
    (boundary : isBoundary rest = true) : readItem (fuel + 1) input = .ok (item, rest) := by
  rw [readItem]
  · simp only [read, if_pos boundary]
  · exact noList

theorem readItem_list {fuel : Nat} {inner gap rest : List Char} {items : List Sexp}
    (read : readItems fuel inner = (items, gap ++ ')' :: rest)) (separators : Separators gap)
    (boundary : isBoundary rest = true) :
    readItem (fuel + 1) ('(' :: inner) = .ok (.list items, rest) := by
  rw [readItem]
  simp only [read, skipSeparators_append separators (stops_close rest), if_pos boundary]

theorem readItem_close (fuel : Nat) (rest : List Char) :
    readItem fuel (')' :: rest) = .error (')' :: rest) := by
  cases fuel with
  | zero => rw [readItem]
  | succ fuel =>
    have noAtom : readAtom (')' :: rest) = none := by
      simp [readAtom, readString_eq_none, readNumber_eq_none, readSymbol]
    rw [readItem]
    · simp only [noAtom]
    · rintro _ ⟨⟩

theorem readItem_of_atom {fuel : Nat} {cs rest : List Char} {item : Sexp} (writes : Writes cs item)
    (atom : ∀ items, item ≠ .list items) (boundary : isBoundary rest = true)
    (enough : 2 * cs.length ≤ fuel) : readItem fuel (cs ++ rest) = .ok (item, rest) := by
  have nonempty := writes.length_pos
  obtain ⟨fuel, rfl⟩ : ∃ n, fuel = n + 1 := ⟨fuel - 1, by omega⟩
  have read := readAtom_append writes atom boundary
  refine readItem_atom (fun inner same => ?_) read boundary
  rw [same] at read
  simp [readAtom, readString_eq_none, readNumber_eq_none, readSymbol] at read

mutual

/-- The reader finds an item that is written at the front of a text, given enough fuel. -/
theorem Writes.readItem_eq {fuel : Nat} {cs rest : List Char} {item : Sexp} :
    Writes cs item → isBoundary rest = true → 2 * cs.length ≤ fuel →
      readItem fuel (cs ++ rest) = .ok (item, rest)
  | @Writes.list inner gap _ written separators, boundary, enough => by
    obtain ⟨fuel, rfl⟩ : ∃ n, fuel = n + 1 := ⟨fuel - 1, by simp at enough; omega⟩
    have room : 2 * inner.length < fuel := by
      simp at enough
      omega
    have read := written.readItems_eq rest separators room
    have same : '(' :: inner ++ gap ++ [')'] ++ rest = '(' :: (inner ++ gap ++ ')' :: rest) := by
      simp
    rw [same]
    exact readItem_list read separators boundary
  | .string plain, boundary, enough => readItem_of_atom (.string plain) nofun boundary enough
  | .number isNumber, boundary, enough => readItem_of_atom (.number isNumber) nofun boundary enough
  | .symbol isSymbol, boundary, enough => readItem_of_atom (.symbol isSymbol) nofun boundary enough

theorem WritesAll.readItems_eq {fuel : Nat} {cs gap : List Char} (rest : List Char)
    {items : List Sexp} : WritesAll cs items → Separators gap → 2 * cs.length < fuel →
      readItems fuel (cs ++ gap ++ ')' :: rest) = (items, gap ++ ')' :: rest)
  | .nil, separators, enough => by
    obtain ⟨fuel, rfl⟩ : ∃ n, fuel = n + 1 := ⟨fuel - 1, by omega⟩
    rw [readItems, List.nil_append, skipSeparators_append separators (stops_close rest),
      readItem_close]
  | @WritesAll.cons before first more _ _ skipped written boundary writtenMore,
      separators, enough => by
    obtain ⟨fuel, rfl⟩ : ∃ n, fuel = n + 1 := ⟨fuel - 1, by omega⟩
    simp only [List.length_append] at enough
    have nonempty := written.length_pos
    have same : before ++ first ++ more ++ gap ++ ')' :: rest =
        before ++ (first ++ (more ++ gap ++ ')' :: rest)) := by simp
    have boundaryAfter : isBoundary (more ++ gap ++ ')' :: rest) = true := by
      rw [List.append_assoc]
      exact isBoundary_append boundary (isBoundary_append separators.isBoundary rfl)
    rw [readItems, same, skipSeparators_append skipped (written.stops_isSeparator _),
      written.readItem_eq boundaryAfter (by omega)]
    have room : 2 * more.length < fuel := by omega
    simp only [writtenMore.readItems_eq rest separators room]

end

/-! What the reader finds is written there. -/

mutual

theorem writes_of_readItem : ∀ {fuel : Nat} {input rest : List Char} {item : Sexp},
    readItem fuel input = .ok (item, rest) →
      isBoundary rest = true ∧ ∃ cs, input = cs ++ rest ∧ Writes cs item
  | 0, _, _, _, read => by
    rw [readItem] at read
    cases read
  | fuel + 1, input, rest, item, read => by
    by_cases isList : ∃ inner, input = '(' :: inner
    · obtain ⟨inner, rfl⟩ := isList
      rcases readInner : readItems fuel inner with ⟨items, after⟩
      obtain ⟨cs, rfl, written⟩ := writesAll_of_readItems readInner
      obtain ⟨gap, separators, whole⟩ := exists_gap after
      rw [readItem] at read
      simp only [readInner] at read
      split at read
      · cases read
      · rename_i found
        split at found
        · rename_i rest' closed
          rw [closed] at whole
          cases found
          split at read
          · rename_i boundary
            cases read
            exact ⟨boundary, '(' :: cs ++ gap ++ [')'], by simp [whole], .list written separators⟩
          · cases read
        · cases found
    · rw [readItem] at read
      · split at read
        · cases read
        · rename_i found
          obtain ⟨cs, rfl, written⟩ := writes_of_readAtom found
          split at read
          · rename_i boundary
            cases read
            exact ⟨boundary, cs, rfl, written⟩
          · cases read
      · exact fun inner same => isList ⟨inner, same⟩

theorem writesAll_of_readItems : ∀ {fuel : Nat} {input rest : List Char} {items : List Sexp},
    readItems fuel input = (items, rest) → ∃ cs, input = cs ++ rest ∧ WritesAll cs items
  | 0, input, rest, items, read => by
    rw [readItems] at read
    cases read
    exact ⟨[], rfl, .nil⟩
  | fuel + 1, input, rest, items, read => by
    rw [readItems] at read
    split at read
    · cases read
      exact ⟨[], rfl, .nil⟩
    · rename_i item after found
      obtain ⟨boundary, cs, same, written⟩ := writes_of_readItem found
      rcases readMore : readItems fuel after with ⟨more, rest'⟩
      rw [readMore] at read
      cases read
      obtain ⟨moreChars, rfl, writtenMore⟩ := writesAll_of_readItems readMore
      obtain ⟨gap, separators, whole⟩ := exists_gap input
      rw [same] at whole
      refine ⟨gap ++ cs ++ moreChars, by simp [whole], .cons separators written ?_ writtenMore⟩
      cases moreChars with
      | nil => rfl
      | cons c moreChars => exact boundary

end

/-! ## The nesting limit -/

/-- The character neither opens nor closes a list or a string. -/
def IsNeutral (c : Char) : Prop :=
  c ≠ '\'' ∧ c ≠ '(' ∧ c ≠ ')'

instance (c : Char) : Decidable (IsNeutral c) :=
  inferInstanceAs (Decidable (_ ∧ _))

theorem IsNeutral.of_isSeparator {c : Char} (separator : isSeparator c = true) : IsNeutral c := by
  refine ⟨?_, ?_, ?_⟩ <;> rintro rfl <;> cases separator

theorem IsNeutral.of_isSymbolChar {c : Char} (symbolChar : isSymbolChar c = true) :
    IsNeutral c := by
  refine ⟨?_, ?_, ?_⟩ <;> rintro rfl <;> cases symbolChar

theorem isSymbolChar_of_isDigit {c : Char} (isDigit : c.isDigit = true) :
    isSymbolChar c = true := by
  simp [isSymbolChar, Char.isAlphanum, isDigit]

theorem IsDecimal.isSymbolChar {cs : List Char} (decimal : IsDecimal cs) :
    ∀ c ∈ cs, Sexp.isSymbolChar c = true := by
  intro c member
  cases decimal with
  | whole digits => exact isSymbolChar_of_isDigit (digits.2 c member)
  | fraction digits places =>
    rcases List.mem_append.1 member with inWhole | inFraction
    · exact isSymbolChar_of_isDigit (digits.2 c inWhole)
    · rcases List.mem_cons.1 inFraction with rfl | inPlaces
      · rfl
      · exact isSymbolChar_of_isDigit (places.2 c inPlaces)

/-- A number has no characters that a symbol could not have. -/
theorem IsNumber.isSymbolChar {cs : List Char} (isNumber : IsNumber cs) :
    ∀ c ∈ cs, Sexp.isSymbolChar c = true := by
  intro c member
  cases isNumber with
  | positive decimal => exact decimal.isSymbolChar c member
  | negative decimal =>
    rcases List.mem_cons.1 member with rfl | inDecimal
    · rfl
    · exact decimal.isSymbolChar c inDecimal

theorem IsSymbol.isSymbolChar {cs : List Char} (isSymbol : IsSymbol cs) :
    ∀ c ∈ cs, Sexp.isSymbolChar c = true := by
  obtain ⟨isAlpha, all⟩ := isSymbol
  intro c member
  rcases List.mem_cons.1 member with rfl | inTail
  · simp [Sexp.isSymbolChar, Char.isAlphanum, isAlpha]
  · exact all c inTail

section

variable {cs rest : List Char} {limit depth : Nat}

theorem exceedsDepth_neutral (neutral : ∀ c ∈ cs, IsNeutral c) :
    exceedsDepth limit depth false (cs ++ rest) = exceedsDepth limit depth false rest := by
  induction cs with
  | nil => rfl
  | cons c cs ih =>
    obtain ⟨noQuote, noOpen, noClose⟩ := neutral c (by simp)
    rw [List.cons_append, exceedsDepth, if_neg noQuote, if_neg (by decide), if_neg noOpen,
      if_neg noClose]
    exact ih fun c member => neutral c (by simp [member])

theorem exceedsDepth_quoted (plain : '\'' ∉ cs) :
    exceedsDepth limit depth true (cs ++ '\'' :: rest) = exceedsDepth limit depth false rest := by
  induction cs with
  | nil => rw [List.nil_append, exceedsDepth, if_pos rfl, Bool.not_true]
  | cons c cs ih =>
    simp only [List.mem_cons, not_or] at plain
    rw [List.cons_append, exceedsDepth, if_neg (Ne.symm plain.1), if_pos rfl]
    exact ih plain.2

mutual

/-- The scan for the nesting limit finds the depth of what is written. -/
theorem Writes.exceedsDepth_eq : ∀ {cs rest : List Char} {depth : Nat} {item : Sexp},
    Writes cs item → depth ≤ limit → exceedsDepth limit depth false (cs ++ rest) =
      (decide (limit < depth + item.depth) || exceedsDepth limit depth false rest)
  | _, rest, depth, _, .symbol isSymbol, within => by
    have noList : ¬limit < depth + 0 := by omega
    rw [exceedsDepth_neutral fun c member => .of_isSymbolChar (isSymbol.isSymbolChar c member),
      Sexp.depth, decide_eq_false noList, Bool.false_or]
  | _, rest, depth, _, .number isNumber, within => by
    have noList : ¬limit < depth + 0 := by omega
    rw [exceedsDepth_neutral fun c member => .of_isSymbolChar (isNumber.isSymbolChar c member),
      Sexp.depth, decide_eq_false noList, Bool.false_or]
  | _, rest, depth, _, @Writes.string cs plain, within => by
    have noList : ¬limit < depth + 0 := by omega
    have same : '\'' :: cs ++ ['\''] ++ rest = '\'' :: (cs ++ '\'' :: rest) := by simp
    rw [same, exceedsDepth, if_pos rfl, Bool.not_false, exceedsDepth_quoted plain, Sexp.depth,
      decide_eq_false noList, Bool.false_or]
  | _, rest, depth, _, @Writes.list inner gap items written separators, within => by
    have same : '(' :: inner ++ gap ++ [')'] ++ rest = '(' :: (inner ++ (gap ++ ')' :: rest)) := by
      simp
    rw [same, exceedsDepth, if_neg (by decide), if_neg (by decide), if_pos rfl, Sexp.depth]
    by_cases atLimit : limit < depth + 1
    · have beyond : limit < depth + (depthAll items + 1) := by omega
      rw [decide_eq_true atLimit, decide_eq_true beyond, Bool.true_or, Bool.true_or]
    · have closed : exceedsDepth limit (depth + 1) false (')' :: rest) =
          exceedsDepth limit depth false rest := by
        rw [exceedsDepth, if_neg (by decide), if_neg (by decide), if_neg (by decide), if_pos rfl,
          Nat.add_sub_cancel]
      rw [decide_eq_false atLimit, Bool.false_or, written.exceedsDepth_eq (by omega),
        exceedsDepth_neutral fun c member => .of_isSeparator (separators c member), closed,
        Nat.add_assoc, Nat.add_comm 1]

theorem WritesAll.exceedsDepth_eq : ∀ {cs rest : List Char} {depth : Nat} {items : List Sexp},
    WritesAll cs items → depth ≤ limit → exceedsDepth limit depth false (cs ++ rest) =
      (decide (limit < depth + depthAll items) || exceedsDepth limit depth false rest)
  | _, rest, depth, _, .nil, within => by
    have noList : ¬limit < depth + 0 := by omega
    rw [List.nil_append, depthAll, decide_eq_false noList, Bool.false_or]
  | _, rest, depth, _, @WritesAll.cons gap first more item items separators written _ writtenMore,
      within => by
    have deepest : decide (limit < depth + max item.depth (depthAll items)) =
        (decide (limit < depth + item.depth) || decide (limit < depth + depthAll items)) := by
      rw [← Bool.decide_or]
      exact decide_eq_decide.2 (by omega)
    rw [List.append_assoc, List.append_assoc,
      exceedsDepth_neutral fun c member => .of_isSeparator (separators c member),
      written.exceedsDepth_eq within, writtenMore.exceedsDepth_eq within, depthAll, deepest,
      Bool.or_assoc]

end

end

/-! ## Texts -/

theorem trim_ne_nil {cs : List Char} {c : Char} (member : c ∈ cs)
    (notBlank : Text.isBlank c = false) : Text.trim cs ≠ [] := by
  intro empty
  rw [Text.trim, List.reverse_eq_nil_iff, List.dropWhile_eq_nil_iff] at empty
  -- nothing but blanks is left behind the blanks at the front, so nothing is left there
  have front : cs.dropWhile Text.isBlank = [] := by
    cases left : cs.dropWhile Text.isBlank with
    | nil => rfl
    | cons first more =>
      have stops := stops_dropWhile Text.isBlank cs first (by rw [left]; rfl)
      rw [empty first (by rw [left]; simp)] at stops
      cases stops
  rw [List.dropWhile_eq_nil_iff.1 front c member] at notBlank
  cases notBlank

theorem skipSeparators_eq_nil {gap : List Char} (separators : Separators gap) :
    skipSeparators gap = [] :=
  List.dropWhile_eq_nil_iff.2 separators

/-- The reader accepts the texts that write an item, with separators around it, in which no more
lists are nested than the limit allows. -/
theorem read_eq_ok_iff {text : String} {limit : Nat} {item : Sexp} :
    read text limit = .ok item ↔ item.depth ≤ limit ∧ ∃ before cs after,
      text.toList = before ++ (cs ++ after) ∧ Separators before ∧ Separators after ∧
        Writes cs item := by
  unfold read
  constructor
  · intro read
    simp only at read
    split at read
    · cases read
    · split at read
      · cases read
      · rename_i within
        unfold readChars at read
        split at read
        · cases read
        · rename_i item' rest found
          obtain ⟨_, cs, same, written⟩ := writes_of_readItem found
          obtain ⟨before, separatorsBefore, whole⟩ := exists_gap text.toList
          obtain ⟨after, separatorsAfter, left⟩ := exists_gap rest
          split at read
          · rename_i finished
            cases read
            rw [finished, List.append_nil] at left
            subst left
            rw [same] at whole
            rw [whole, exceedsDepth_neutral fun c member => .of_isSeparator (separatorsBefore c member),
              written.exceedsDepth_eq (Nat.zero_le limit)] at within
            simp only [Nat.zero_add, Bool.or_eq_true, decide_eq_true_eq, not_or, Nat.not_lt] at within
            exact ⟨within.1, before, cs, rest, whole, separatorsBefore, separatorsAfter, written⟩
          · cases read
  · rintro ⟨shallow, before, cs, after, whole, separatorsBefore, separatorsAfter, written⟩
    obtain ⟨c, more, same, _, notBlank⟩ := written.exists_head
    have visible : Text.trim text.toList ≠ [] :=
      trim_ne_nil (c := c) (by simp [whole, same]) notBlank
    have within : exceedsDepth limit 0 false text.toList = false := by
      have nothing : exceedsDepth limit 0 false (after ++ []) = exceedsDepth limit 0 false [] :=
        exceedsDepth_neutral fun c member => .of_isSeparator (separatorsAfter c member)
      rw [List.append_nil] at nothing
      rw [whole, exceedsDepth_neutral fun c member => .of_isSeparator (separatorsBefore c member),
        written.exceedsDepth_eq (Nat.zero_le limit), nothing, exceedsDepth]
      simpa using shallow
    have skipped : skipSeparators text.toList = cs ++ after := by
      rw [whole]
      exact skipSeparators_append separatorsBefore (written.stops_isSeparator after)
    have found : readItem (2 * text.toList.length + 2) (cs ++ after) = .ok (item, after) :=
      written.readItem_eq separatorsAfter.isBoundary (by simp [whole]; omega)
    have read : readChars text.toList = .ok item := by
      rw [readChars, skipped, found]
      simp only [skipSeparators_eq_nil separatorsAfter]
    simp only [List.isEmpty_iff, if_neg visible, within, Bool.false_eq_true, if_false, read]

end Sexp

end SignalRules
