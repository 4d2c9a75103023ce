import Mathlib.Data.List.Forall2
import SignalRules.Proofs.Grammar
import SignalRules.Proofs.Meaning

/-! # Printing

The text of a term is one of the texts that write an item, the one with a single space wherever
separators are needed. Number literals come back as they went out, and no other literal of a number
is shorter.
-/

namespace SignalRules

/-! ## Number literals -/

namespace Fixed

open Sexp (Digits IsNumber)

theorem digits_toDigits (n : Nat) : Digits (Nat.toDigits 10 n) :=
  ⟨Nat.toDigits_ne_nil, fun _ member => Nat.isDigit_of_mem_toDigits (by decide) (by decide) member⟩

theorem digits_iff {digits : List Char} :
    Digits digits ↔ '.' ∉ digits ∧ ¬(digits.isEmpty || !digits.all Char.isDigit) = true := by
  simp only [Digits, Bool.or_eq_true, List.isEmpty_iff, Bool.not_eq_true', not_or,
    Bool.not_eq_false, List.all_eq_true]
  constructor
  · rintro ⟨nonempty, all⟩
    exact ⟨fun member => absurd (all '.' member) (by decide), nonempty, all⟩
  · exact And.right

theorem not_sign_of_digits {digits : List Char} (isDigits : Digits digits) :
    digits.head? ≠ some '-' := by
  rcases digits with _ | ⟨c, more⟩
  · exact absurd rfl isDigits.1
  · rintro ⟨⟩
    exact absurd (isDigits.2 '-' (by simp)) (by decide)

/-- A literal is a sign or none, then digits for the count of hundredths without its sign. -/
theorem ofLiteral_eq_ok_iff {text : String} {a : Fixed} :
    ofLiteral text = .ok a ↔ ∃ digits, Digits digits ∧
      (text.toList = digits ∧ a.raw = Nat.ofDigitChars 10 digits 0 ∨
        text.toList = '-' :: digits ∧ a.raw = -(Nat.ofDigitChars 10 digits 0 : Int)) := by
  have body : ∀ digits : List Char,
      digits = (if text.toList.head? = some '-' then text.toList.tail else text.toList) →
        (ofLiteral text = .ok a ↔ Digits digits ∧ a.raw =
          if text.toList.head? = some '-' then -(Nat.ofDigitChars 10 digits 0 : Int)
          else (Nat.ofDigitChars 10 digits 0 : Int)) := by
    intro digits same
    rw [digits_iff, ← ofRaw?_eq_some_iff]
    unfold ofLiteral
    simp only [← same]
    split
    · simp_all
    · split
      · simp_all
      · split <;> simp_all
  rw [body _ rfl]
  by_cases signed : text.toList.head? = some '-'
  · obtain ⟨digits, same⟩ := List.head?_eq_some_iff.1 signed
    simp only [same, List.head?_cons, if_true, List.tail_cons]
    constructor
    · rintro ⟨isDigits, value⟩
      exact ⟨digits, isDigits, .inr ⟨rfl, value⟩⟩
    · rintro ⟨digits', isDigits, ⟨rfl, _⟩ | ⟨⟨⟩, value⟩⟩
      · exact absurd rfl (not_sign_of_digits isDigits)
      · exact ⟨isDigits, value⟩
  · simp only [signed, if_false]
    constructor
    · rintro ⟨isDigits, value⟩
      exact ⟨_, isDigits, .inl ⟨rfl, value⟩⟩
    · rintro ⟨digits', isDigits, ⟨rfl, value⟩ | ⟨same, _⟩⟩
      · exact ⟨isDigits, value⟩
      · rw [same] at signed
        exact absurd rfl signed

theorem toList_toLiteral (a : Fixed) : a.toLiteral.toList =
    if a.raw < 0 then '-' :: Nat.toDigits 10 a.raw.natAbs else Nat.toDigits 10 a.raw.natAbs := by
  have repr : a.toLiteral = a.raw.repr := rfl
  rw [repr]
  cases a.raw with
  | ofNat n =>
    have positive : ¬Int.ofNat n < 0 := by simp
    rw [if_neg positive, Int.repr, Nat.toList_repr]
    rfl
  | negSucc n =>
    have negative : Int.negSucc n < 0 := Int.negSucc_lt_zero n
    rw [if_pos negative, Int.repr, String.toList_append, Nat.toList_repr]
    rfl

/-- A number is read back from its literal. -/
theorem ofLiteral_toLiteral (a : Fixed) : ofLiteral a.toLiteral = .ok a := by
  refine ofLiteral_eq_ok_iff.2 ⟨_, digits_toDigits a.raw.natAbs, ?_⟩
  rw [toList_toLiteral, Nat.ofDigitChars_ten_toDigits]
  by_cases negative : a.raw < 0
  · exact .inr ⟨if_pos negative, by omega⟩
  · exact .inl ⟨if_neg negative, by omega⟩

theorem isNumber_toLiteral (a : Fixed) : IsNumber a.toLiteral.toList := by
  rw [toList_toLiteral]
  split
  · exact .negative (.whole (digits_toDigits _))
  · exact .positive (.whole (digits_toDigits _))

theorem ofDigitChars_lt {digits : List Char} (all : ∀ c ∈ digits, c.isDigit = true) :
    Nat.ofDigitChars 10 digits 0 < Nat.pow 10 digits.length := by
  induction digits with
  | nil => decide
  | cons c digits ih =>
    have digit := Sexp.toNat_of_isDigit (all c (by simp))
    have rest := ih fun c member => all c (by simp [member])
    have zero : '0'.toNat = 48 := rfl
    have leading : Nat.pow 10 digits.length * (10 * 0 + (c.toNat - '0'.toNat)) ≤
        Nat.pow 10 digits.length * 9 := Nat.mul_le_mul_left _ (by omega)
    have room : Nat.pow 10 (c :: digits).length = Nat.pow 10 digits.length * 10 := rfl
    rw [Nat.ofDigitChars_cons, Nat.ofDigitChars_eq_ofDigitChars_zero, room]
    change Nat.pow 10 digits.length * _ + _ < _
    omega

theorem length_toDigits_le {digits : List Char} (isDigits : Digits digits) :
    (Nat.toDigits 10 (Nat.ofDigitChars 10 digits 0)).length ≤ digits.length :=
  (Nat.length_toDigits_le_iff (by decide) (List.length_pos_iff.2 isDigits.1)).2
    (ofDigitChars_lt isDigits.2)

/-- No literal of a number is shorter than the one that is printed. -/
theorem length_toLiteral_le {text : String} {a : Fixed} (read : ofLiteral text = .ok a) :
    a.toLiteral.toList.length ≤ text.toList.length := by
  obtain ⟨digits, isDigits, ⟨same, value⟩ | ⟨same, value⟩⟩ := ofLiteral_eq_ok_iff.1 read
  · have positive : ¬a.raw < 0 := by omega
    have magnitude : a.raw.natAbs = Nat.ofDigitChars 10 digits 0 := by omega
    rw [toList_toLiteral, if_neg positive, magnitude, same]
    exact length_toDigits_le isDigits
  · have shorter := length_toDigits_le isDigits
    have magnitude : a.raw.natAbs = Nat.ofDigitChars 10 digits 0 := by omega
    rw [toList_toLiteral, magnitude, same, List.length_cons]
    -- the sign of a literal for zero is lost
    split
    · rw [List.length_cons]
      omega
    · omega

end Fixed

/-! ## Printed items -/

namespace Sexp

mutual

/-- The item with single spaces and no others. -/
def chars : Sexp → List Char
  | .symbol name => name.toList
  | .number text => text.toList
  | .string text => '\'' :: text.toList ++ ['\'']
  | .list items => '(' :: (charsAll items).tail ++ [')']

/-- The items, each with a space in front. -/
def charsAll : List Sexp → List Char
  | [] => []
  | item :: items => ' ' :: chars item ++ charsAll items

end

/-- The item has atoms only that can be written. -/
inductive Plain : Sexp → Prop where
  | symbol {name : String} : IsSymbol name.toList → Plain (.symbol name)
  | number {text : String} : IsNumber text.toList → Plain (.number text)
  | string {text : String} : '\'' ∉ text.toList → Plain (.string text)
  | list {items : List Sexp} : (∀ item ∈ items, Plain item) → Plain (.list items)

mutual

theorem Writes.plain : ∀ {cs : List Char} {item : Sexp}, Writes cs item → Plain item
  | _, _, .symbol isSymbol => .symbol (by simpa using isSymbol)
  | _, _, .number isNumber => .number (by simpa using isNumber)
  | _, _, .string plain => .string (by simpa using plain)
  | _, _, .list written _ => .list written.plain

theorem WritesAll.plain : ∀ {cs : List Char} {items : List Sexp},
    WritesAll cs items → ∀ item ∈ items, Plain item
  | _, _, .nil => by simp
  | _, _, .cons _ written _ writtenMore => by
    intro item member
    rcases List.mem_cons.1 member with isFirst | inMore
    · exact isFirst ▸ written.plain
    · exact writtenMore.plain item inMore

end

theorem isBoundary_charsAll (items : List Sexp) : isBoundary (charsAll items) = true := by
  cases items with
  | nil => rw [charsAll]; rfl
  | cons item items => rw [charsAll]; rfl

theorem WritesAll.of_each {items : List Sexp} (each : ∀ item ∈ items, Writes item.chars item) :
    WritesAll (charsAll items) items := by
  induction items with
  | nil =>
    rw [charsAll]
    exact .nil
  | cons item items ih =>
    rw [charsAll]
    have space : Separators [' '] := by
      intro c member
      cases List.mem_singleton.1 member
      decide
    exact @WritesAll.cons [' '] _ _ _ _ space (each item (by simp)) (isBoundary_charsAll items)
      (ih fun item member => each item (by simp [member]))

/-- The space in front of the first item is not needed. -/
theorem WritesAll.tail {items : List Sexp} (each : ∀ item ∈ items, Writes item.chars item) :
    WritesAll (charsAll items).tail items := by
  cases items with
  | nil =>
    rw [charsAll]
    exact .nil
  | cons item items =>
    rw [charsAll]
    exact @WritesAll.cons [] _ _ _ _ nofun (each item (by simp)) (isBoundary_charsAll items)
      (.of_each fun item member => each item (by simp [member]))

/-- The printed form of an item is one of its written forms. -/
theorem Plain.writes {item : Sexp} (plain : Plain item) : Writes item.chars item := by
  induction plain with
  | @symbol name isSymbol =>
    rw [chars]
    simpa using Writes.symbol isSymbol
  | @number text isNumber =>
    rw [chars]
    simpa using Writes.number isNumber
  | @string text noQuote =>
    rw [chars]
    simpa using Writes.string noQuote
  | list _ ih =>
    have written := @Writes.list _ [] _ (.tail ih) nofun
    rwa [List.append_nil] at written

end Sexp

/-! ## Lengths -/

namespace Text

theorem byteLength_append (cs ds : List Char) :
    byteLength (cs ++ ds) = byteLength cs + byteLength ds := by
  induction cs with
  | nil => simp [byteLength]
  | cons c cs ih => simp [byteLength, ih, Nat.add_assoc]

theorem utf8ByteSize_eq (s : String) : s.utf8ByteSize = byteLength s.toList := by
  have ofList : ∀ cs : List Char, (String.ofList cs).utf8ByteSize = byteLength cs := by
    intro cs
    induction cs with
    | nil => rfl
    | cons c cs ih =>
      rw [String.ofList_cons, String.utf8ByteSize_append, String.utf8ByteSize_singleton, ih,
        byteLength]
  rw [← ofList, String.ofList_toList]

theorem length_le_byteLength (cs : List Char) : cs.length ≤ byteLength cs := by
  induction cs with
  | nil => rfl
  | cons c cs ih =>
    have positive := Char.utf8Size_pos c
    rw [List.length_cons, byteLength]
    omega

theorem byteLength_eq_length {cs : List Char} (single : ∀ c ∈ cs, c.utf8Size = 1) :
    byteLength cs = cs.length := by
  induction cs with
  | nil => rfl
  | cons c cs ih =>
    have rest := ih fun c member => single c (List.mem_cons_of_mem _ member)
    rw [byteLength, single c List.mem_cons_self, rest, List.length_cons, Nat.add_comm]

end Text

namespace Sexp

open Text (byteLength byteLength_append)

theorem utf8Size_of_isSymbolChar {c : Char} (symbolChar : isSymbolChar c = true) :
    c.utf8Size = 1 := by
  have small : c.toNat ≤ 127 := by
    simp only [isSymbolChar, Char.isAlphanum, Bool.or_eq_true, beq_iff_eq] at symbolChar
    rcases symbolChar with (((isAlpha | isDigit) | rfl) | rfl) | rfl
    · have letter := toNat_of_isAlpha isAlpha
      omega
    · have digit := toNat_of_isDigit isDigit
      omega
    all_goals decide
  rw [Char.utf8Size_eq_one_iff]
  exact UInt32.le_iff_toNat_le.2 small

theorem byteLength_of_isNumber {cs : List Char} (isNumber : IsNumber cs) :
    byteLength cs = cs.length :=
  Text.byteLength_eq_length fun c member => utf8Size_of_isSymbolChar (isNumber.isSymbolChar c member)

theorem byteLength_charsAll_cons (item : Sexp) (items : List Sexp) :
    byteLength (charsAll (item :: items)) = 1 + byteLength item.chars + byteLength (charsAll items) := by
  rw [charsAll, List.cons_append, byteLength, byteLength_append, ← Nat.add_assoc]
  rfl

theorem byteLength_tail_charsAll (items : List Sexp) :
    byteLength (charsAll items).tail = byteLength (charsAll items) - 1 := by
  cases items with
  | nil =>
    rw [charsAll]
    rfl
  | cons item items =>
    rw [byteLength_charsAll_cons, charsAll, List.cons_append, List.tail_cons, byteLength_append]
    omega

theorem Writes.not_isBoundary {cs : List Char} {item : Sexp} (writes : Writes cs item)
    (rest : List Char) : isBoundary (cs ++ rest) = false := by
  have stops := writes.stops_isSeparator rest
  obtain ⟨c, more, rfl, noClose, _⟩ := writes.exists_head
  simp [isBoundary, noClose, stops c rfl]

mutual

/-- No written form of an item is shorter than the printed one. -/
theorem Writes.byteLength_chars_le : ∀ {cs : List Char} {item : Sexp}, Writes cs item →
    byteLength item.chars ≤ byteLength cs
  | _, _, .symbol _ => by simp [chars]
  | _, _, .number _ => by simp [chars]
  | _, _, .string _ => by simp [chars]
  | _, _, @Writes.list inner gap items written _ => by
    have inside := written.byteLength_charsAll_le
    have room : byteLength (charsAll items).tail ≤ byteLength inner := by
      rw [byteLength_tail_charsAll]
      split at inside <;> omega
    simp only [chars, List.cons_append, byteLength, byteLength_append]
    omega

/-- The space in front of each item makes up for a separator, except in front of the first. -/
theorem WritesAll.byteLength_charsAll_le : ∀ {cs : List Char} {items : List Sexp},
    WritesAll cs items →
      byteLength (charsAll items) ≤ byteLength cs + if isBoundary cs then 0 else 1
  | _, _, .nil => by simp [charsAll]
  | _, _, @WritesAll.cons gap first more _ _ _ written boundary writtenMore => by
    have here := written.byteLength_chars_le
    have behind := writtenMore.byteLength_charsAll_le
    rw [if_pos boundary] at behind
    rw [byteLength_charsAll_cons, byteLength_append, byteLength_append]
    cases gap with
    | nil =>
      rw [List.nil_append, written.not_isBoundary more]
      simp only [byteLength, Bool.false_eq_true, if_false]
      omega
    | cons c gap =>
      have positive := Char.utf8Size_pos c
      rw [byteLength]
      omega

end

/-! ## Restated items -/

mutual

/-- The second item is the first one with its numbers in canonical form and, it may be, other texts
in its strings. -/
inductive Restates : Sexp → Sexp → Prop where
  | symbol (name : String) : Restates (.symbol name) (.symbol name)
  | number {text : String} {n : Fixed} : Fixed.ofLiteral text = .ok n →
    Restates (.number text) (.number n.toLiteral)
  | string {text text' : String} : text' = text ∨ '\'' ∉ text'.toList →
    Restates (.string text) (.string text')
  | list {items items' : List Sexp} : RestatesAll items items' →
    Restates (.list items) (.list items')

inductive RestatesAll : List Sexp → List Sexp → Prop where
  | nil : RestatesAll [] []
  | cons {item item' : Sexp} {items items' : List Sexp} : Restates item item' →
    RestatesAll items items' → RestatesAll (item :: items) (item' :: items')

end

mutual

theorem Restates.depth_eq : ∀ {item item' : Sexp}, Restates item item' → item'.depth = item.depth
  | _, _, .symbol _ | _, _, .number _ | _, _, .string _ => by simp [depth]
  | _, _, .list restates => by simp [depth, restates.depth_eq]

theorem RestatesAll.depth_eq : ∀ {items items' : List Sexp}, RestatesAll items items' →
    depthAll items' = depthAll items
  | _, _, .nil => rfl
  | _, _, .cons first rest => by simp [depthAll, first.depth_eq, rest.depth_eq]

end

theorem RestatesAll.length_eq {items items' : List Sexp} (restates : RestatesAll items items') :
    items'.length = items.length := by
  induction items generalizing items' with
  | nil =>
    cases restates
    rfl
  | cons item items ih =>
    cases restates with
    | cons _ rest => simp [ih rest]

mutual

theorem Restates.plain : ∀ {item item' : Sexp}, Restates item item' → Plain item → Plain item'
  | _, _, .symbol _, plain => plain
  | _, _, .number _, _ => .number (Fixed.isNumber_toLiteral _)
  | _, _, .string (.inl same), plain => same ▸ plain
  | _, _, .string (.inr noQuote), _ => .string noQuote
  | _, _, .list restates, .list each => .list (restates.plain each)

theorem RestatesAll.plain : ∀ {items items' : List Sexp}, RestatesAll items items' →
    (∀ item ∈ items, Plain item) → ∀ item' ∈ items', Plain item'
  | _, _, .nil, _ => by simp
  | _, _, .cons first rest, each => by
    intro item' member
    rcases List.mem_cons.1 member with isFirst | inRest
    · exact isFirst ▸ first.plain (each _ (by simp))
    · exact rest.plain (fun item member => each item (by simp [member])) item' inRest

end

mutual

/-- The texts in the strings of an item, from left to right. -/
def strings : Sexp → List String
  | .symbol _ => []
  | .number _ => []
  | .string text => [text]
  | .list items => stringsAll items

def stringsAll : List Sexp → List String
  | [] => []
  | item :: items => strings item ++ stringsAll items

end

mutual

theorem Restates.length_strings : ∀ {item item' : Sexp}, Restates item item' →
    item'.strings.length = item.strings.length
  | _, _, .symbol _ | _, _, .number _ | _, _, .string _ => by simp [strings]
  | _, _, .list restates => by simp [strings, restates.length_strings]

theorem RestatesAll.length_strings : ∀ {items items' : List Sexp}, RestatesAll items items' →
    (stringsAll items').length = (stringsAll items).length
  | _, _, .nil => rfl
  | _, _, .cons first rest => by simp [stringsAll, first.length_strings, rest.length_strings]

end

/-- One by one, the texts are no longer than those they stand for. -/
def NoLonger (texts texts' : List String) : Prop :=
  List.Forall₂ (fun text text' => text'.utf8ByteSize ≤ text.utf8ByteSize) texts texts'

theorem NoLonger.split {first rest first' rest' : List String} (sameLength : first'.length = first.length)
    (noLonger : NoLonger (first ++ rest) (first' ++ rest')) :
    NoLonger first first' ∧ NoLonger rest rest' := by
  have front := List.forall₂_take_append _ _ _ noLonger
  have back := List.forall₂_drop_append _ _ _ noLonger
  rw [sameLength, List.take_left] at front
  rw [sameLength, List.drop_left] at back
  exact ⟨front, back⟩

mutual

theorem Restates.byteLength_chars_le : ∀ {item item' : Sexp}, Restates item item' →
    NoLonger item.strings item'.strings → byteLength item'.chars ≤ byteLength item.chars
  | _, _, .symbol _, _ => Nat.le_refl _
  | _, _, @Restates.number text n canonical, _ => by
    have shorter := Fixed.length_toLiteral_le canonical
    have wide := Text.length_le_byteLength text.toList
    simp only [chars]
    rw [byteLength_of_isNumber (Fixed.isNumber_toLiteral n)]
    omega
  | _, _, .string _, noLonger => by
    simp only [strings, NoLonger, List.forall₂_cons, Text.utf8ByteSize_eq] at noLonger
    simp only [chars, List.cons_append, byteLength, byteLength_append]
    omega
  | _, _, @Restates.list items items' restates, noLonger => by
    simp only [strings] at noLonger
    have shorter := restates.byteLength_charsAll_le noLonger
    have inside := byteLength_tail_charsAll items
    have inside' := byteLength_tail_charsAll items'
    simp only [chars, List.cons_append, byteLength, byteLength_append]
    omega

theorem RestatesAll.byteLength_charsAll_le : ∀ {items items' : List Sexp},
    RestatesAll items items' → NoLonger (stringsAll items) (stringsAll items') →
      byteLength (charsAll items') ≤ byteLength (charsAll items)
  | _, _, .nil, _ => Nat.le_refl _
  | _, _, .cons first rest, noLonger => by
    simp only [stringsAll] at noLonger
    obtain ⟨inFirst, inRest⟩ := noLonger.split first.length_strings
    have here := first.byteLength_chars_le inFirst
    have behind := rest.byteLength_charsAll_le inRest
    rw [byteLength_charsAll_cons, byteLength_charsAll_cons]
    omega

end

end Sexp

/-! ## Printed terms -/

namespace Term

mutual

/-- The item that a term is printed as. -/
def toSexp : Term → Sexp
  | .constant (.number n) => .number n.toLiteral
  | .constant (.string text) => .string text
  | .signal ref => .list [.symbol "sig", .symbol ref.name]
  | .operator op operands => .list (.symbol op.keyword :: toSexpAll operands)
  | .action once ref args =>
    .list (.symbol (Call.keyword once) :: .symbol ref.name :: toSexpAll args)

def toSexpAll : List Term → List Sexp
  | [] => []
  | term :: terms => toSexp term :: toSexpAll terms

end

mutual

theorem toList_toScript : ∀ term : Term, term.toScript.toList = term.toSexp.chars
  | .constant (.number n) => rfl
  | .constant (.string text) => by
    simp [toScript, Value.toLiteral, toSexp, Sexp.chars]
  | .signal ref => by
    simp [toScript, toSexp, Sexp.chars, Sexp.charsAll]
  | .operator op operands => by
    simp [toScript, toSexp, Sexp.chars, Sexp.charsAll, toList_toScriptAll operands]
  | .action once ref args => by
    cases once <;>
      simp [toScript, toSexp, Sexp.chars, Sexp.charsAll, toList_toScriptAll args, Call.keyword]

theorem toList_toScriptAll : ∀ terms : List Term,
    (toScriptAll terms).toList = Sexp.charsAll (toSexpAll terms)
  | [] => by simp [toScriptAll, toSexpAll, Sexp.charsAll]
  | term :: terms => by
    simp [toScriptAll, toSexpAll, Sexp.charsAll, toList_toScript term, toList_toScriptAll terms]

end

end Term

end SignalRules
