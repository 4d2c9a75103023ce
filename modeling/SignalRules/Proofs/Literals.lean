import Mathlib.Data.List.Induction
import SignalRules.Proofs.Printing

/-! # What literals denote

The digits of a literal are given a value place by place, apart from how they are read. A text is
read as a number exactly if it denotes one that fits. Of all literals of a number the printed one is
the shortest, and the reader takes it for one number again.
-/

namespace SignalRules

/-! ## Digits -/

def digitValue (c : Char) : Nat :=
  c.toNat - '0'.toNat

/-- The digits denote the number. What stands in front of the last digit counts ten times. -/
inductive Denotes : List Char → Nat → Prop where
  | digit {c : Char} : c.isDigit = true → Denotes [c] (digitValue c)
  | place {ds : List Char} {n : Nat} {c : Char} : Denotes ds n → c.isDigit = true →
    Denotes (ds ++ [c]) (10 * n + digitValue c)

theorem digitChar_digitValue {c : Char} (isDigit : c.isDigit = true) :
    Nat.digitChar (digitValue c) = c := by
  have bounds := Sexp.toNat_of_isDigit isDigit
  have zero : '0'.toNat = 48 := rfl
  apply Char.toNat_inj.1
  rw [Nat.toNat_digitChar_of_lt_ten] <;> rw [digitValue] <;> omega

theorem digitValue_lt {c : Char} (isDigit : c.isDigit = true) : digitValue c < 10 := by
  have bounds := Sexp.toNat_of_isDigit isDigit
  have zero : '0'.toNat = 48 := rfl
  rw [digitValue]
  omega

theorem toDigits_digitValue {c : Char} (isDigit : c.isDigit = true) :
    Nat.toDigits 10 (digitValue c) = [c] := by
  rw [Nat.toDigits_of_lt_base (digitValue_lt isDigit), digitChar_digitValue isDigit]

namespace Denotes

open Sexp (Digits)

theorem digits {ds : List Char} {n : Nat} (denotes : Denotes ds n) : Digits ds := by
  induction denotes with
  | digit isDigit => exact ⟨by simp, by simpa using isDigit⟩
  | place _ isDigit ih =>
    refine ⟨by simp, fun c member => ?_⟩
    rcases List.mem_append.1 member with inFront | isLast
    · exact ih.2 c inFront
    · rwa [List.mem_singleton.1 isLast]

theorem eq_ofDigitChars {ds : List Char} {n : Nat} (denotes : Denotes ds n) :
    n = Nat.ofDigitChars 10 ds 0 := by
  induction denotes with
  | digit _ => simp [Nat.ofDigitChars_cons, digitValue]
  | place _ _ ih => simp [Nat.ofDigitChars_append, Nat.ofDigitChars_cons, digitValue, ← ih]

theorem of_digits {ds : List Char} (isDigits : Digits ds) :
    Denotes ds (Nat.ofDigitChars 10 ds 0) := by
  obtain ⟨nonempty, all⟩ := isDigits
  induction ds using List.reverseRecOn with
  | nil => exact absurd rfl nonempty
  | append_singleton ds c ih =>
    have isDigit := all c (by simp)
    rw [Nat.ofDigitChars_append, Nat.ofDigitChars_cons, Nat.ofDigitChars_nil]
    by_cases single : ds = []
    · subst single
      simpa [digitValue] using digit isDigit
    · exact place (ih single fun c member => all c (by simp [member])) isDigit

end Denotes

theorem denotes_iff {ds : List Char} {n : Nat} :
    Denotes ds n ↔ Sexp.Digits ds ∧ n = Nat.ofDigitChars 10 ds 0 := by
  constructor
  · intro denotes
    exact ⟨denotes.digits, denotes.eq_ofDigitChars⟩
  · rintro ⟨isDigits, rfl⟩
    exact .of_digits isDigits

theorem Denotes.unique {ds : List Char} {n n' : Nat} (first : Denotes ds n)
    (second : Denotes ds n') : n = n' :=
  first.eq_ofDigitChars.trans second.eq_ofDigitChars.symm

theorem denotes_toDigits (n : Nat) : Denotes (Nat.toDigits 10 n) n :=
  denotes_iff.2 ⟨Fixed.digits_toDigits n, Nat.ofDigitChars_ten_toDigits.symm⟩

/-- There is no zero at the front but for the number zero. -/
def Tight (ds : List Char) : Prop :=
  ds.head? = some '0' → ds = ['0']

/-- Without needless zeros at the front a number has one notation. -/
theorem Denotes.eq_toDigits {ds : List Char} {n : Nat} (denotes : Denotes ds n)
    (tight : Tight ds) : ds = Nat.toDigits 10 n := by
  induction denotes with
  | digit isDigit => exact (toDigits_digitValue isDigit).symm
  | @place ds n c before isDigit ih =>
    have nonempty := before.digits.1
    have leading : ds.head? ≠ some '0' := by
      intro zero
      have whole := tight (by rw [List.head?_append_of_ne_nil _ nonempty, zero])
      have length := congrArg List.length whole
      simp [nonempty] at length
    have same := ih fun zero => absurd zero leading
    have positive : 0 < n := by
      rw [Nat.pos_iff_ne_zero]
      rintro rfl
      rw [same] at leading
      exact leading rfl
    rw [← Nat.toDigits_append_toDigits (by decide) positive (digitValue_lt isDigit), ← same,
      toDigits_digitValue isDigit]

theorem Denotes.longer_of_not_tight {ds : List Char} {n : Nat} (denotes : Denotes ds n)
    (loose : ¬Tight ds) : (Nat.toDigits 10 n).length < ds.length := by
  obtain ⟨⟨nonempty, all⟩, value⟩ := denotes_iff.1 denotes
  simp only [Tight, Classical.not_imp] at loose
  obtain ⟨zero, more⟩ := loose
  obtain ⟨ds, rfl⟩ := List.head?_eq_some_iff.1 zero
  -- the zero at the front can be left out
  have rest : Sexp.Digits ds :=
    ⟨fun none => more (by rw [none]), fun c member => all c (by simp [member])⟩
  have shorter := Fixed.length_toDigits_le rest
  have same : n = Nat.ofDigitChars 10 ds 0 := by simpa [Nat.ofDigitChars_cons] using value
  rw [same, List.length_cons]
  exact Nat.lt_succ_of_le shorter

theorem tight_toDigits (n : Nat) : Tight (Nat.toDigits 10 n) := by
  by_contra loose
  exact Nat.lt_irrefl _ ((denotes_toDigits n).longer_of_not_tight loose)

/-- Any other notation of a number is longer than the one that is printed. -/
theorem Denotes.eq_or_longer {ds : List Char} {n : Nat} (denotes : Denotes ds n) :
    ds = Nat.toDigits 10 n ∨ (Nat.toDigits 10 n).length < ds.length := by
  by_cases tight : Tight ds
  · exact .inl (denotes.eq_toDigits tight)
  · exact .inr (denotes.longer_of_not_tight tight)

namespace Fixed

/-! ## Literals -/

/-- The characters are a literal of the integer: a hyphen or none, then digits. -/
inductive IsLiteral : List Char → Int → Prop where
  | positive {ds : List Char} {n : Nat} : Denotes ds n → IsLiteral ds n
  | negative {ds : List Char} {n : Nat} : Denotes ds n → IsLiteral ('-' :: ds) (-n)

/-- What is left of the characters without a hyphen at the front. -/
def unsigned (cs : List Char) : List Char :=
  if cs.head? = some '-' then cs.tail else cs

/-- Why a text cannot be read as a number. -/
inductive Rejected (text : String) : LiteralError → Prop where
  | decimalPoint : '.' ∈ unsigned text.toList → Rejected text (.decimalPoint text)
  | malformed : '.' ∉ unsigned text.toList → (∀ n, ¬IsLiteral text.toList n) →
    Rejected text (.malformed text)
  | tooLarge {n : Int} : IsLiteral text.toList n → ¬(-2147483648 ≤ n ∧ n ≤ 2147483647) →
    Rejected text (.tooLarge text)

theorem ofLiteral_eq_ok_iff_isLiteral {text : String} {a : Fixed} :
    ofLiteral text = .ok a ↔ IsLiteral text.toList a.raw := by
  rw [ofLiteral_eq_ok_iff]
  constructor
  · rintro ⟨ds, digits, ⟨same, value⟩ | ⟨same, value⟩⟩
    · rw [same, value]
      exact .positive (.of_digits digits)
    · rw [same, value]
      exact .negative (.of_digits digits)
  · intro literal
    generalize whole : text.toList = cs, number : a.raw = n at literal
    cases literal with
    | positive denotes =>
      exact ⟨_, denotes.digits, .inl ⟨rfl, by rw [denotes.eq_ofDigitChars]⟩⟩
    | negative denotes =>
      exact ⟨_, denotes.digits, .inr ⟨rfl, by rw [denotes.eq_ofDigitChars]⟩⟩

theorem exists_raw_iff {n : Int} :
    (∃ a : Fixed, a.raw = n) ↔ -2147483648 ≤ n ∧ n ≤ 2147483647 := by
  constructor
  · rintro ⟨a, rfl⟩
    exact ⟨a.lower, a.upper⟩
  · rintro ⟨lower, upper⟩
    exact ⟨⟨n, lower, upper⟩, rfl⟩

/-- What is left without the sign are digits just if the characters are a literal. -/
theorem exists_isLiteral_iff {cs : List Char} :
    (∃ n, IsLiteral cs n) ↔ Sexp.Digits (unsigned cs) := by
  constructor
  · rintro ⟨_, denotes | denotes⟩
    · rw [unsigned, if_neg (not_sign_of_digits denotes.digits)]
      exact denotes.digits
    · exact denotes.digits
  · intro digits
    unfold unsigned at digits
    split at digits
    · rename_i sign
      obtain ⟨ds, rfl⟩ := List.head?_eq_some_iff.1 sign
      exact ⟨_, .negative (.of_digits digits)⟩
    · exact ⟨_, .positive (.of_digits digits)⟩

theorem IsLiteral.unique {cs : List Char} {n n' : Int} (first : IsLiteral cs n)
    (second : IsLiteral cs n') : n = n' := by
  cases first with
  | positive denotes =>
    cases second with
    | positive denotes' => rw [denotes.unique denotes']
    | negative _ => exact absurd rfl (not_sign_of_digits denotes.digits)
  | negative denotes =>
    cases second with
    | positive denotes' => exact absurd rfl (not_sign_of_digits denotes'.digits)
    | negative denotes' => rw [denotes.unique denotes']

theorem IsLiteral.no_point {cs : List Char} {n : Int} (literal : IsLiteral cs n) :
    '.' ∉ unsigned cs :=
  (digits_iff.1 (exists_isLiteral_iff.1 ⟨n, literal⟩)).1

theorem rejected_of_error {text : String} {error : LiteralError}
    (failed : ofLiteral text = .error error) : Rejected text error := by
  have result := failed
  have body : (if text.toList.head? = some '-' then text.toList.tail else text.toList) =
      unsigned text.toList := rfl
  simp only [ofLiteral, body] at result
  split at result
  · rename_i point
    cases result
    exact .decimalPoint point
  · rename_i noPoint
    split at result
    · rename_i noDigits
      cases result
      refine .malformed noPoint fun n literal => ?_
      exact (digits_iff.1 (exists_isLiteral_iff.1 ⟨n, literal⟩)).2 noDigits
    · rename_i isDigits
      split at result
      · cases result
      · cases result
        obtain ⟨n, literal⟩ := exists_isLiteral_iff.2 (digits_iff.2 ⟨noPoint, isDigits⟩)
        refine .tooLarge literal fun fits => ?_
        obtain ⟨a, rfl⟩ := exists_raw_iff.2 fits
        rw [ofLiteral_eq_ok_iff_isLiteral.2 literal] at failed
        cases failed

theorem Rejected.not_ok {text : String} {error : LiteralError} (rejected : Rejected text error)
    (a : Fixed) : ofLiteral text ≠ .ok a := by
  intro read
  have literal := ofLiteral_eq_ok_iff_isLiteral.1 read
  cases rejected with
  | decimalPoint point => exact literal.no_point point
  | malformed _ none => exact none a.raw literal
  | tooLarge beyond outside =>
    rw [beyond.unique literal] at outside
    exact outside ⟨a.lower, a.upper⟩

/-- There is one reason only. -/
theorem Rejected.unique {text : String} {error error' : LiteralError}
    (first : Rejected text error) (second : Rejected text error') : error = error' := by
  cases first with
  | decimalPoint point =>
    cases second with
    | decimalPoint _ => rfl
    | malformed noPoint _ => exact absurd point noPoint
    | tooLarge literal _ => exact absurd point literal.no_point
  | malformed noPoint none =>
    cases second with
    | decimalPoint point => exact absurd point noPoint
    | malformed _ _ => rfl
    | tooLarge literal _ => exact absurd literal (none _)
  | tooLarge literal _ =>
    cases second with
    | decimalPoint point => exact absurd point literal.no_point
    | malformed _ none => exact absurd literal (none _)
    | tooLarge _ _ => rfl

theorem ofLiteral_eq_error_iff {text : String} {error : LiteralError} :
    ofLiteral text = .error error ↔ Rejected text error := by
  refine ⟨rejected_of_error, fun rejected => ?_⟩
  cases result : ofLiteral text with
  | ok a => exact absurd result (rejected.not_ok a)
  | error _ => rw [rejected.unique (rejected_of_error result)]

/-! ## Printed literals -/

theorem eq_or_longer_of_read {text : String} {a : Fixed} (read : ofLiteral text = .ok a) :
    text = a.toLiteral ∨ a.toLiteral.length < text.length := by
  have literal := ofLiteral_eq_ok_iff_isLiteral.1 read
  have printed := toList_toLiteral a
  rw [← String.toList_inj, ← String.length_toList, ← String.length_toList]
  generalize text.toList = cs, a.raw = n at literal printed
  cases literal with
  | @positive ds n denotes =>
    rw [printed, if_neg (by omega), Int.natAbs_natCast]
    exact denotes.eq_or_longer
  | @negative ds n denotes =>
    rw [printed, Int.natAbs_neg, Int.natAbs_natCast]
    by_cases zero : n = 0
    · -- the sign of a zero is needless
      subst zero
      rw [if_neg (by decide)]
      exact .inr (by simpa [List.length_pos_iff] using denotes.digits.1)
    · rw [if_pos (by omega), List.cons_inj_right, List.length_cons, List.length_cons]
      rcases denotes.eq_or_longer with same | longer
      · exact .inl same
      · exact .inr (by omega)

theorem read_toLiteral (a : Fixed) (limit : Nat) :
    Sexp.read a.toLiteral limit = .ok (.number a.toLiteral) := by
  have written := Sexp.Writes.number (isNumber_toLiteral a)
  rw [String.ofList_toList] at written
  exact Sexp.read_eq_ok_iff.2 ⟨Nat.zero_le _, [], _, [], by simp, nofun, nofun, written⟩

/-- A text is read as a number exactly if it is a literal of one that fits, and otherwise there is a
parsing error that gives the reason. A number is read back from the literal that is printed for it,
all other literals of it are longer, and to the reader of scripts the printed one is a number. -/
theorem literals_exact :
    (∀ text : String,
      (∀ n : Int, (∃ a : Fixed, ofLiteral text = .ok a ∧ a.raw = n) ↔
        IsLiteral text.toList n ∧ -2147483648 ≤ n ∧ n ≤ 2147483647) ∧
      ((∃ error, ofLiteral text = .error error ∧ (ScriptError.literal error).kind = .parsing) ↔
        ¬∃ n, IsLiteral text.toList n ∧ -2147483648 ≤ n ∧ n ≤ 2147483647) ∧
      ∀ error, ofLiteral text = .error error ↔ Rejected text error) ∧
    ∀ a : Fixed, ofLiteral a.toLiteral = .ok a ∧
      (∀ text, ofLiteral text = .ok a →
        text = a.toLiteral ∨ a.toLiteral.length < text.length) ∧
      ∀ limit, Sexp.read a.toLiteral limit = .ok (.number a.toLiteral) := by
  have accepted : ∀ (text : String) (n : Int),
      (∃ a : Fixed, ofLiteral text = .ok a ∧ a.raw = n) ↔
        IsLiteral text.toList n ∧ -2147483648 ≤ n ∧ n ≤ 2147483647 := by
    intro text n
    rw [← exists_raw_iff]
    constructor
    · rintro ⟨a, read, rfl⟩
      exact ⟨ofLiteral_eq_ok_iff_isLiteral.1 read, a, rfl⟩
    · rintro ⟨literal, a, rfl⟩
      exact ⟨a, ofLiteral_eq_ok_iff_isLiteral.2 literal, rfl⟩
  refine ⟨fun text => ⟨accepted text, ?_, fun error => ofLiteral_eq_error_iff⟩, fun a => ?_⟩
  · simp only [← accepted text]
    cases ofLiteral text <;> simp [ScriptError.kind]
  · exact ⟨ofLiteral_toLiteral a, fun text => eq_or_longer_of_read, read_toLiteral a⟩

/-- Zeros at the front and the sign of a zero make a literal longer; the least number has a literal,
and its opposite is too large. -/
theorem literals_exact_at_limits :
    let least : Fixed := ⟨-2147483648, by decide, by decide⟩
    let minusSeven : Fixed := ⟨-7, by decide, by decide⟩
    (ofLiteral "-007" = .ok minusSeven ∧ minusSeven.toLiteral.length < "-007".length) ∧
    (ofLiteral "-0" = .ok zero ∧ zero.toLiteral.length < "-0".length) ∧
    ofLiteral "-2147483648" = .ok least ∧ Rejected "2147483648" (.tooLarge "2147483648") ∧
    Rejected "--7" (.malformed "--7") ∧ Rejected "1.50" (.decimalPoint "1.50") ∧
    Sexp.read least.toLiteral 0 = .ok (.number least.toLiteral) := by
  intro least minusSeven
  have sevens : ofLiteral "-007" = .ok minusSeven := by decide +kernel
  have zeros : ofLiteral "-0" = .ok zero := by decide +kernel
  refine ⟨⟨sevens, ?_⟩, ⟨zeros, ?_⟩, (literals_exact.2 least).1, ?_, ?_, ?_,
    (literals_exact.2 least).2.2 0⟩
  · exact ((literals_exact.2 minusSeven).2.1 "-007" sevens).resolve_left (by decide)
  · exact ((literals_exact.2 zero).2.1 "-0" zeros).resolve_left (by decide)
  · exact ((literals_exact.1 "2147483648").2.2 _).1 (by decide +kernel)
  · exact ((literals_exact.1 "--7").2.2 _).1 (by decide +kernel)
  · exact ((literals_exact.1 "1.50").2.2 _).1 (by decide +kernel)

end Fixed

end SignalRules
