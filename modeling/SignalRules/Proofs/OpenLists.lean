import SignalRules.Proofs.Grammar

/-! # Open lists

The reader once more, with a note of every place of the text that it looks at and of the lists that
are open there. The check for the nesting limit goes over the text on its own and knows quotes and
parentheses only. Still its counter stands, wherever the reader comes to, at the number of lists
that are open, be the text one that can be read or not; so a text that passes the check never takes
the reader into more lists than the limit allows.
-/

namespace SignalRules

namespace Sexp

/-! ## The counter of the check -/

/-- What a character does to the check: to the number of lists that it takes to be open, and to
whether it takes itself to be in a string. -/
def count : Nat × Bool → Char → Nat × Bool
  | (depth, quoted), c =>
    if c = '\'' then (depth, !quoted)
    else if quoted then (depth, quoted)
    else if c = '(' then (depth + 1, quoted)
    else if c = ')' then (depth - 1, quoted)
    else (depth, quoted)

def counted (state : Nat × Bool) (cs : List Char) : Nat × Bool :=
  cs.foldl count state

theorem counted_append (state : Nat × Bool) (cs rest : List Char) :
    counted state (cs ++ rest) = counted (counted state cs) rest :=
  List.foldl_append

section

variable {limit depth : Nat} {quoted : Bool} {cs : List Char}

theorem exceedsDepth_cons {c : Char} (within : depth ≤ limit) :
    exceedsDepth limit depth quoted (c :: cs) =
      (decide (limit < (count (depth, quoted) c).1) ||
        exceedsDepth limit (count (depth, quoted) c).1 (count (depth, quoted) c).2 cs) := by
  have admitted : decide (limit < depth) = false := decide_eq_false (by omega)
  have closed : decide (limit < depth - 1) = false := decide_eq_false (by omega)
  rw [exceedsDepth, count]
  split
  · rw [admitted, Bool.false_or]
  · split
    · rw [admitted, Bool.false_or]
    · split
      · rfl
      · split
        · rw [closed, Bool.false_or]
        · rw [admitted, Bool.false_or]

/-- A text passes the check just if the counter is within the limit all along. -/
theorem exceedsDepth_eq_false_iff (within : depth ≤ limit) :
    exceedsDepth limit depth quoted cs = false ↔
      ∀ front rest, cs = front ++ rest → (counted (depth, quoted) front).1 ≤ limit := by
  induction cs generalizing depth quoted with
  | nil =>
    refine ⟨fun _ front rest whole => ?_, fun _ => rfl⟩
    rw [(List.append_eq_nil_iff.1 whole.symm).1]
    exact within
  | cons c cs ih =>
    rw [exceedsDepth_cons within, Bool.or_eq_false_iff, decide_eq_false_iff_not, Nat.not_lt]
    constructor
    · rintro ⟨next, rest⟩ (_ | ⟨_, front⟩) more whole
      · exact within
      · cases whole
        exact (ih next).1 rest front more rfl
    · intro all
      have next := all [c] cs rfl
      exact ⟨next, (ih next).2 fun front rest whole => all (c :: front) rest (by rw [whole]; rfl)⟩

theorem counted_neutral (neutral : ∀ c ∈ cs, IsNeutral c) :
    counted (depth, false) cs = (depth, false) := by
  induction cs with
  | nil => rfl
  | cons c cs ih =>
    obtain ⟨noQuote, noOpen, noClose⟩ := neutral c (by simp)
    have same : count (depth, false) c = (depth, false) := by simp [count, noQuote, noOpen, noClose]
    rw [counted, List.foldl_cons, same]
    exact ih fun c member => neutral c (by simp [member])

theorem counted_quoted (plain : ∀ c ∈ cs, (c != '\'') = true) :
    counted (depth, true) cs = (depth, true) := by
  induction cs with
  | nil => rfl
  | cons c cs ih =>
    have noQuote : c ≠ '\'' := bne_iff_ne.1 (plain c (by simp))
    have same : count (depth, true) c = (depth, true) := by simp [count, noQuote]
    rw [counted, List.foldl_cons, same]
    exact ih fun c member => plain c (by simp [member])

end

mutual

/-- An item leaves the counter where it stood. -/
theorem Writes.counted_eq : ∀ {cs : List Char} {depth : Nat} {item : Sexp},
    Writes cs item → counted (depth, false) cs = (depth, false)
  | _, _, _, .symbol isSymbol =>
    counted_neutral fun c member => .of_isSymbolChar (isSymbol.isSymbolChar c member)
  | _, _, _, .number isNumber =>
    counted_neutral fun c member => .of_isSymbolChar (isNumber.isSymbolChar c member)
  | _, depth, _, @Writes.string cs plain => by
    have inside : counted (depth, true) cs = (depth, true) :=
      counted_quoted fun c member => bne_iff_ne.2 (by rintro rfl; exact plain member)
    rw [List.cons_append, ← List.singleton_append, counted_append, counted_append]
    change counted (counted (depth, true) cs) ['\''] = _
    rw [inside]
    rfl
  | _, depth, _, @Writes.list inner gap items written separators => by
    have between : counted (depth + 1, false) gap = (depth + 1, false) :=
      counted_neutral fun c member => .of_isSeparator (separators c member)
    rw [List.cons_append, List.cons_append, ← List.singleton_append, counted_append,
      counted_append, counted_append]
    change counted (counted (counted (depth + 1, false) inner) gap) [')'] = _
    rw [written.counted_eq, between]
    rfl

theorem WritesAll.counted_eq : ∀ {cs : List Char} {depth : Nat} {items : List Sexp},
    WritesAll cs items → counted (depth, false) cs = (depth, false)
  | _, _, _, .nil => rfl
  | _, _, _, .cons separators written _ writtenMore => by
    rw [counted_append, counted_append,
      counted_neutral fun c member => .of_isSeparator (separators c member), written.counted_eq,
      writtenMore.counted_eq]

end

/-! ## The reader with notes -/

/-- A place that the reader looks at, by what is left of the text there, and the lists that are open
at the time. A list is open from its parenthesis on; where there is none, no list is. -/
structure Moment where
  opened : Nat
  rest : List Char
  deriving DecidableEq

/-- Characters of one kind are looked at one by one, up to the first of another kind. -/
def looking (p : Char → Bool) (opened : Nat) : List Char → List Moment
  | [] => [⟨opened, []⟩]
  | c :: cs => ⟨opened, c :: cs⟩ :: if p c then looking p opened cs else []

def stringMoments (opened : Nat) : List Char → List Moment
  | '\'' :: input =>
    looking (· != '\'') opened input ++ [⟨opened, (input.dropWhile (· != '\'')).tail⟩]
  | _ => []

def decimalMoments (opened : Nat) (input : List Char) : List Moment :=
  looking Char.isDigit opened input ++
    if (input.takeWhile Char.isDigit).isEmpty then []
    else
      match input.dropWhile Char.isDigit with
      | '.' :: rest => looking Char.isDigit opened rest
      | _ => []

def numberMoments (opened : Nat) : List Char → List Moment
  | '-' :: input => decimalMoments opened input
  | input => decimalMoments opened input

def symbolMoments (opened : Nat) : List Char → List Moment
  | c :: input => if c.isAlpha then looking isSymbolChar opened input else []
  | [] => []

/-- The attempts at an atom, one after the other. The first character ends all of them but one. -/
def atomMoments (opened : Nat) (input : List Char) : List Moment :=
  stringMoments opened input ++ numberMoments opened input ++ symbolMoments opened input

/-- The end of a list, which is open as long as there is no parenthesis. -/
def closeMoments (opened : Nat) (rest : List Char) : List Moment :=
  looking isSeparator (opened + 1) rest ++
    match skipSeparators rest with
    | ')' :: rest => [⟨opened, rest⟩]
    | _ => []

mutual

/-- `readItem` inside so many open lists, with its moments. -/
def traceItem : Nat → Nat → List Char → List Moment × Except (List Char) (Sexp × List Char)
  | 0, opened, input => ([⟨opened, input⟩], .error input)
  | fuel + 1, opened, input =>
    let (moments, found) :=
      match input with
      | '(' :: inner =>
        let (moments, items, rest) := traceItems fuel (opened + 1) inner
        (moments ++ closeMoments opened rest,
          match skipSeparators rest with
          | ')' :: rest => some (.list items, rest)
          | _ => none)
      | _ => (atomMoments opened input, readAtom input)
    (⟨opened, input⟩ :: moments,
      match found with
      | none => .error input
      | some (item, rest) => if isBoundary rest then .ok (item, rest) else .error rest)

/-- `readItems` inside so many open lists, with its moments. -/
def traceItems : Nat → Nat → List Char → List Moment × List Sexp × List Char
  | 0, opened, input => ([⟨opened, input⟩], [], input)
  | fuel + 1, opened, input =>
    let before := looking isSeparator opened input
    match traceItem fuel opened (skipSeparators input) with
    | (moments, .error _) => (before ++ moments ++ [⟨opened, input⟩], [], input)
    | (moments, .ok (item, rest)) =>
      let (more, items, rest) := traceItems fuel opened rest
      (before ++ moments ++ more, item :: items, rest)

end

/-- `readChars` with its moments; the fuel is up to the caller. -/
def traceChars (fuel : Nat) (input : List Char) : List Moment × Except ReadError Sexp :=
  let before := looking isSeparator 0 input
  match traceItem fuel 0 (skipSeparators input) with
  | (moments, .error rest) => (before ++ moments, .error (fault input rest))
  | (moments, .ok (item, rest)) =>
    (before ++ moments ++ looking isSeparator 0 rest,
      match skipSeparators rest with
      | [] => .ok item
      | rest => .error (fault input rest))

/-! Without its notes it is the reader. -/

mutual

theorem traceItem_snd : ∀ (fuel opened : Nat) (input : List Char),
    (traceItem fuel opened input).2 = readItem fuel input
  | 0, opened, input => by rw [traceItem, readItem]
  | fuel + 1, opened, input => by
    by_cases isList : ∃ inner, input = '(' :: inner
    · obtain ⟨inner, rfl⟩ := isList
      rewrite [traceItem, readItem, ← traceItems_snd fuel (opened + 1) inner]
      rfl
    · have noList : ∀ inner, input ≠ '(' :: inner := fun inner same => isList ⟨inner, same⟩
      rw [traceItem, readItem] <;> first | rfl | exact noList

theorem traceItems_snd : ∀ (fuel opened : Nat) (input : List Char),
    (traceItems fuel opened input).2 = readItems fuel input
  | 0, opened, input => by rw [traceItems, readItems]
  | fuel + 1, opened, input => by
    have same := traceItem_snd fuel opened (skipSeparators input)
    rcases traced : traceItem fuel opened (skipSeparators input) with ⟨moments, result⟩
    rw [traced] at same
    rw [traceItems, readItems, ← same]
    cases result with
    | error _ => simp only [traced]
    | ok found =>
      obtain ⟨item, rest⟩ := found
      have sameMore := traceItems_snd fuel opened rest
      simp only [traced, ← sameMore]

end

theorem traceChars_snd (input : List Char) :
    (traceChars (2 * input.length + 2) input).2 = readChars input := by
  rw [traceChars, readChars, ← traceItem_snd (2 * input.length + 2) 0 (skipSeparators input)]
  obtain ⟨moments, _ | ⟨item, rest⟩⟩ :=
    traceItem (2 * input.length + 2) 0 (skipSeparators input)
  · rfl
  · rfl

/-! ## Moments and the counter -/

/-- The counter, if it starts in front of the input at this depth, stands at the number of open
lists when it comes to the place of the moment. -/
def Moment.Counted (depth : Nat) (input : List Char) (moment : Moment) : Prop :=
  ∃ front, input = front ++ moment.rest ∧ (counted (depth, false) front).1 = moment.opened

section

variable {moment : Moment} {depth opened : Nat} {input front rest : List Char}

theorem Moment.Counted.here : Moment.Counted opened input ⟨opened, input⟩ :=
  ⟨[], rfl, rfl⟩

theorem Moment.Counted.behind (before : counted (depth, false) front = (opened, false))
    (inRest : moment.Counted opened rest) : moment.Counted depth (front ++ rest) := by
  obtain ⟨more, rfl, tally⟩ := inRest
  exact ⟨front ++ more, by rw [List.append_assoc], by rw [counted_append, before, tally]⟩

theorem Moment.Counted.next {c : Char} (neutral : IsNeutral c)
    (inRest : moment.Counted opened rest) : moment.Counted opened (c :: rest) := by
  have before : counted (opened, false) [c] = (opened, false) := by
    apply counted_neutral
    simpa using neutral
  exact inRest.behind before

theorem exists_of_mem_looking {p : Char → Bool} (member : moment ∈ looking p opened input) :
    moment.opened = opened ∧ ∃ front, input = front ++ moment.rest ∧ ∀ c ∈ front, p c = true := by
  induction input with
  | nil =>
    rw [looking, List.mem_singleton] at member
    subst member
    exact ⟨rfl, [], rfl, nofun⟩
  | cons c cs ih =>
    rw [looking, List.mem_cons] at member
    rcases member with rfl | later
    · exact ⟨rfl, [], rfl, nofun⟩
    · split at later
      · rename_i isOfKind
        obtain ⟨same, front, rfl, all⟩ := ih later
        refine ⟨same, c :: front, rfl, fun c' member => ?_⟩
        rcases List.mem_cons.1 member with rfl | inFront
        · exact isOfKind
        · exact all c' inFront
      · cases later

theorem counted_of_mem_looking {p : Char → Bool} (neutral : ∀ {c}, p c = true → IsNeutral c)
    (member : moment ∈ looking p opened input) : moment.Counted opened input := by
  obtain ⟨same, front, whole, all⟩ := exists_of_mem_looking member
  exact ⟨front, whole, by rw [counted_neutral fun c member => neutral (all c member), same]⟩

theorem counted_of_mem_stringMoments (member : moment ∈ stringMoments opened input) :
    moment.Counted opened input := by
  unfold stringMoments at member
  split at member
  · rename_i inner
    have opening : counted (opened, false) ['\''] = (opened, true) := rfl
    rcases List.mem_append.1 member with inside | atEnd
    · obtain ⟨same, front, whole, plain⟩ := exists_of_mem_looking inside
      refine ⟨['\''] ++ front, by rw [whole]; rfl, ?_⟩
      rw [counted_append, opening, counted_quoted plain, same]
    · rw [List.mem_singleton] at atEnd
      subst atEnd
      have whole := List.takeWhile_append_dropWhile (p := (· != '\'')) (l := inner)
      have inString : counted (opened, false) (['\''] ++ inner.takeWhile (· != '\'')) =
          (opened, true) := by
        rw [counted_append, opening, counted_quoted fun _ => List.mem_takeWhile_imp]
      cases left : inner.dropWhile (· != '\'') with
      | nil =>
        -- the string is not closed, and the end of the text lies in it
        rw [left, List.append_nil] at whole
        rw [whole] at inString
        exact ⟨['\''] ++ inner, by simp, by rw [inString]⟩
      | cons c rest =>
        have isQuote : c = '\'' := by
          have stops := stops_dropWhile (· != '\'') inner c (by rw [left]; rfl)
          simpa using stops
        subst isQuote
        rw [left] at whole
        refine ⟨['\''] ++ inner.takeWhile (· != '\'') ++ ['\''], ?_, ?_⟩
        · rw [List.append_assoc, List.append_assoc]
          exact congrArg ('\'' :: ·) whole.symm
        · rw [counted_append, inString]
          rfl
  · cases member

theorem counted_of_mem_decimalMoments (member : moment ∈ decimalMoments opened input) :
    moment.Counted opened input := by
  have neutral : ∀ {c : Char}, c.isDigit = true → IsNeutral c :=
    fun isDigit => .of_isSymbolChar (isSymbolChar_of_isDigit isDigit)
  rw [decimalMoments, List.mem_append] at member
  rcases member with whole | places
  · exact counted_of_mem_looking neutral whole
  · split at places
    · cases places
    · split at places
      · rename_i rest point
        have same := List.takeWhile_append_dropWhile (p := Char.isDigit) (l := input)
        rw [point] at same
        rw [← same]
        apply Moment.Counted.behind
          (counted_neutral fun c member => neutral (List.mem_takeWhile_imp member))
        exact .next (by decide) (counted_of_mem_looking neutral places)
      · cases places

theorem counted_of_mem_numberMoments (member : moment ∈ numberMoments opened input) :
    moment.Counted opened input := by
  unfold numberMoments at member
  split at member
  · rename_i inner
    exact .next (by decide) (counted_of_mem_decimalMoments member)
  · exact counted_of_mem_decimalMoments member

theorem counted_of_mem_symbolMoments (member : moment ∈ symbolMoments opened input) :
    moment.Counted opened input := by
  unfold symbolMoments at member
  split at member
  · split at member
    · rename_i isAlpha
      have symbolChar : ∀ {c : Char}, c.isAlpha = true → isSymbolChar c = true :=
        fun isAlpha => by simp [isSymbolChar, Char.isAlphanum, isAlpha]
      exact .next (.of_isSymbolChar (symbolChar isAlpha))
        (counted_of_mem_looking .of_isSymbolChar member)
    · cases member
  · cases member

theorem counted_of_mem_atomMoments (member : moment ∈ atomMoments opened input) :
    moment.Counted opened input := by
  rw [atomMoments, List.mem_append, List.mem_append] at member
  rcases member with (inString | inNumber) | inSymbol
  · exact counted_of_mem_stringMoments inString
  · exact counted_of_mem_numberMoments inNumber
  · exact counted_of_mem_symbolMoments inSymbol

theorem counted_of_mem_closeMoments (member : moment ∈ closeMoments opened input) :
    moment.Counted (opened + 1) input := by
  rw [closeMoments, List.mem_append] at member
  rcases member with gap | close
  · exact counted_of_mem_looking .of_isSeparator gap
  · split at close
    · rename_i rest closed
      rw [List.mem_singleton] at close
      subst close
      obtain ⟨gap, separators, whole⟩ := exists_gap input
      rw [closed] at whole
      rw [whole]
      apply Moment.Counted.behind
        (counted_neutral fun c member => .of_isSeparator (separators c member))
      exact ⟨[')'], rfl, rfl⟩
    · cases close

theorem counted_skipSeparators (inRest : moment.Counted opened (skipSeparators input)) :
    moment.Counted opened input := by
  obtain ⟨gap, separators, whole⟩ := exists_gap input
  rw [whole]
  exact inRest.behind (counted_neutral fun c member => .of_isSeparator (separators c member))

theorem counted_behind_item {fuel : Nat} {item : Sexp}
    (read : readItem fuel (skipSeparators input) = .ok (item, rest))
    (inRest : moment.Counted opened rest) : moment.Counted opened input := by
  obtain ⟨_, cs, same, written⟩ := writes_of_readItem read
  apply counted_skipSeparators
  rw [same]
  exact inRest.behind written.counted_eq

end

mutual

/-- Inside `opened` lists the reader keeps to the counter, whatever the input is. -/
theorem counted_of_mem_traceItem : ∀ {fuel opened : Nat} {input : List Char} {moment : Moment},
    moment ∈ (traceItem fuel opened input).1 → moment.Counted opened input
  | 0, opened, input, moment, member => by
    rw [traceItem, List.mem_singleton] at member
    subst member
    exact .here
  | fuel + 1, opened, input, moment, member => by
    by_cases isList : ∃ inner, input = '(' :: inner
    · obtain ⟨inner, rfl⟩ := isList
      have opening : counted (opened, false) ['('] = (opened + 1, false) := rfl
      rcases traced : traceItems fuel (opened + 1) inner with ⟨moments, items, rest⟩
      have read : readItems fuel inner = (items, rest) := by rw [← traceItems_snd, traced]
      rw [traceItem] at member
      simp only [traced, List.mem_cons, List.mem_append] at member
      rcases member with rfl | inside | atEnd
      · exact .here
      · have inTrace : moment ∈ (traceItems fuel (opened + 1) inner).1 := by rwa [traced]
        exact (counted_of_mem_traceItems inTrace).behind opening
      · obtain ⟨cs, rfl, written⟩ := writesAll_of_readItems read
        have inner := (counted_of_mem_closeMoments atEnd).behind written.counted_eq
        exact inner.behind opening
    · rw [traceItem] at member
      · rcases List.mem_cons.1 member with rfl | inAtom
        · exact .here
        · exact counted_of_mem_atomMoments inAtom
      · exact fun inner same => isList ⟨inner, same⟩

theorem counted_of_mem_traceItems : ∀ {fuel opened : Nat} {input : List Char} {moment : Moment},
    moment ∈ (traceItems fuel opened input).1 → moment.Counted opened input
  | 0, opened, input, moment, member => by
    rw [traceItems, List.mem_singleton] at member
    subst member
    exact .here
  | fuel + 1, opened, input, moment, member => by
    rcases traced : traceItem fuel opened (skipSeparators input) with ⟨moments, result⟩
    have inItem : moment ∈ moments → moment.Counted opened input := by
      intro inside
      have inTrace : moment ∈ (traceItem fuel opened (skipSeparators input)).1 := by rwa [traced]
      exact counted_skipSeparators (counted_of_mem_traceItem inTrace)
    rw [traceItems] at member
    cases result with
    | error _ =>
      simp only [traced, List.mem_append, List.mem_singleton] at member
      rcases member with (inGap | inside) | rfl
      · exact counted_of_mem_looking .of_isSeparator inGap
      · exact inItem inside
      · exact .here
    | ok found =>
      obtain ⟨item, rest⟩ := found
      have read : readItem fuel (skipSeparators input) = .ok (item, rest) := by
        rw [← traceItem_snd fuel opened, traced]
      simp only [traced, List.mem_append] at member
      rcases member with (inGap | inside) | inMore
      · exact counted_of_mem_looking .of_isSeparator inGap
      · exact inItem inside
      · exact counted_behind_item read (counted_of_mem_traceItems inMore)

end

theorem counted_of_mem_traceChars {fuel : Nat} {input : List Char} {moment : Moment}
    (member : moment ∈ (traceChars fuel input).1) : moment.Counted 0 input := by
  rcases traced : traceItem fuel 0 (skipSeparators input) with ⟨moments, result⟩
  have inItem : moment ∈ moments → moment.Counted 0 input := by
    intro inside
    have inTrace : moment ∈ (traceItem fuel 0 (skipSeparators input)).1 := by rwa [traced]
    exact counted_skipSeparators (counted_of_mem_traceItem inTrace)
  rw [traceChars] at member
  cases result with
  | error _ =>
    simp only [traced, List.mem_append] at member
    exact member.elim (counted_of_mem_looking .of_isSeparator) inItem
  | ok found =>
    obtain ⟨item, rest⟩ := found
    have read : readItem fuel (skipSeparators input) = .ok (item, rest) := by
      rw [← traceItem_snd fuel 0, traced]
    simp only [traced, List.mem_append] at member
    rcases member with (inGap | inside) | after
    · exact counted_of_mem_looking .of_isSeparator inGap
    · exact inItem inside
    · exact counted_behind_item read (counted_of_mem_looking .of_isSeparator after)

/-! ## The deepest place -/

mutual

/-- Somewhere in an item as many lists are open as it is deep. -/
theorem exists_deepest_of_readItem : ∀ {fuel opened : Nat} {input rest : List Char} {item : Sexp},
    readItem fuel input = .ok (item, rest) →
      ∃ moment ∈ (traceItem fuel opened input).1, moment.opened = opened + item.depth
  | 0, _, _, _, _, read => by
    rw [readItem] at read
    cases read
  | fuel + 1, opened, input, rest, item, read => by
    by_cases isList : ∃ inner, input = '(' :: inner
    · obtain ⟨inner, rfl⟩ := isList
      rcases readInner : readItems fuel inner with ⟨items, after⟩
      have isItems : item = .list items := by
        rw [readItem] at read
        simp only [readInner] at read
        split at read
        · cases read
        · rename_i found
          split at found <;> cases found
          split at read <;> cases read
          rfl
      obtain ⟨moment, inside, deepest⟩ :=
        @exists_deepest_of_readItems _ (opened + 1) _ _ _ readInner
      refine ⟨moment, ?_, ?_⟩
      · rw [traceItem]
        simp [inside]
      · rw [deepest, isItems, depth]
        omega
    · have isAtom : item.depth = 0 := by
        obtain ⟨_, cs, rfl, written⟩ := writes_of_readItem read
        cases written with
        | list _ _ => exact absurd ⟨_, rfl⟩ isList
        | _ => rfl
      refine ⟨⟨opened, input⟩, ?_, by rw [isAtom]; rfl⟩
      rw [traceItem]
      · exact List.mem_cons_self
      · exact fun inner same => isList ⟨inner, same⟩

theorem exists_deepest_of_readItems : ∀ {fuel opened : Nat} {input rest : List Char}
    {items : List Sexp}, readItems fuel input = (items, rest) →
      ∃ moment ∈ (traceItems fuel opened input).1, moment.opened = opened + depthAll items
  | 0, opened, input, _, _, read => by
    rw [readItems] at read
    cases read
    rw [traceItems]
    exact ⟨_, List.mem_cons_self, rfl⟩
  | fuel + 1, opened, input, rest, items, read => by
    have same := traceItem_snd fuel opened (skipSeparators input)
    rcases traced : traceItem fuel opened (skipSeparators input) with ⟨moments, result⟩
    rw [traced] at same
    rw [readItems, ← same] at read
    rw [traceItems]
    simp only [traced]
    cases result with
    | error _ =>
      cases read
      exact ⟨⟨opened, input⟩, by simp, rfl⟩
    | ok found =>
      obtain ⟨item, after⟩ := found
      rcases readMore : readItems fuel after with ⟨more, rest'⟩
      simp only [readMore] at read
      cases read
      obtain ⟨first, inFirst, deepFirst⟩ := @exists_deepest_of_readItem _ opened _ _ _ same.symm
      obtain ⟨later, inLater, deepLater⟩ := @exists_deepest_of_readItems _ opened _ _ _ readMore
      rw [traced] at inFirst
      rw [depthAll]
      -- the deeper of the two is the deepest
      rcases Nat.le_total item.depth (depthAll more) with shallow | deep
      · exact ⟨later, by simp [inLater], by rw [deepLater, Nat.max_eq_right shallow]⟩
      · exact ⟨first, by simp [inFirst], by rw [deepFirst, Nat.max_eq_left deep]⟩

end

theorem exists_deepest_of_readChars {input : List Char} {item : Sexp}
    (read : readChars input = .ok item) :
    ∃ moment ∈ (traceChars (2 * input.length + 2) input).1, moment.opened = item.depth := by
  have same := traceItem_snd (2 * input.length + 2) 0 (skipSeparators input)
  rcases traced : traceItem (2 * input.length + 2) 0 (skipSeparators input) with ⟨moments, result⟩
  rw [traced] at same
  rw [readChars, ← same] at read
  rw [traceChars]
  simp only [traced]
  cases result with
  | error _ => cases read
  | ok found =>
    obtain ⟨item', rest⟩ := found
    simp only at read
    split at read <;> cases read
    obtain ⟨moment, inside, deepest⟩ := @exists_deepest_of_readItem _ 0 _ _ _ same.symm
    rw [traced] at inside
    exact ⟨moment, by simp [inside], by rw [deepest, Nat.zero_add]⟩

/-- In a text that passes the check the reader is never inside more lists than the limit allows,
whether it can read the text or not and whatever fuel it has: wherever it comes to, the check has
counted the lists that are open. Without its notes it is the reader of such texts, and it does go
into all lists of what it reads. -/
theorem open_lists_bounded {text : String} {limit : Nat}
    (passes : exceedsDepth limit 0 false text.toList = false) :
    (∀ fuel, ∀ moment ∈ (traceChars fuel text.toList).1,
      moment.opened ≤ limit ∧ moment.Counted 0 text.toList) ∧
    (read text limit = if (Text.trim text.toList).isEmpty then .error .blank
      else (traceChars (2 * text.toList.length + 2) text.toList).2) ∧
    ∀ item, read text limit = .ok item →
      ∃ moment ∈ (traceChars (2 * text.toList.length + 2) text.toList).1,
        moment.opened = item.depth := by
  have reader : read text limit = if (Text.trim text.toList).isEmpty then .error .blank
      else readChars text.toList := by simp [read, passes]
  refine ⟨fun fuel moment member => ?_, ?_, fun item found => ?_⟩
  · obtain ⟨front, whole, opened⟩ := counted_of_mem_traceChars member
    have within := (exceedsDepth_eq_false_iff (Nat.zero_le limit)).1 passes front moment.rest whole
    exact ⟨opened ▸ within, front, whole, opened⟩
  · rw [reader, traceChars_snd]
  · rw [reader] at found
    split at found
    · cases found
    · exact exists_deepest_of_readChars found

/-- Two lists and a string that are not closed, and parentheses in two strings. -/
theorem open_lists_bounded_of_unreadable :
    let text := "((a '(((') (b '(("
    exceedsDepth 2 0 false text.toList = false ∧
    (read text 2).isOk = false ∧
    (∃ moment ∈ (traceChars 36 text.toList).1, moment.opened = 2) ∧
    ∀ moment ∈ (traceChars 36 text.toList).1, moment.opened ≤ 2 := by
  intro text
  have passes : exceedsDepth 2 0 false text.toList = false := by decide +kernel
  obtain ⟨bounded, _, _⟩ := open_lists_bounded passes
  exact ⟨passes, by decide +kernel, by decide +kernel,
    fun moment member => (bounded 36 moment member).1⟩

end Sexp

end SignalRules
