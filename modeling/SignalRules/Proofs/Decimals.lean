import Mathlib.Algebra.Order.Field.Rat
import Mathlib.Tactic.Linarith
import Mathlib.Tactic.Ring
import SignalRules.Proofs.Layouts
import SignalRules.Proofs.Literals

/-! # Decimal notation

A decimal is given its value apart from how numbers are printed: digits count for themselves, and
those behind a point as a fraction. The decimal of a number is the one canonical notation whose
value is a hundredth of the count, so that no text in which it stands can be taken to show another
number.
-/

namespace SignalRules

/-! ## Decimals -/

/-- The characters are digits, with a point and more digits or without, and denote the magnitude. -/
inductive IsMagnitude : List Char → ℚ → Prop where
  | whole {ds : List Char} {n : Nat} : Denotes ds n → IsMagnitude ds n
  | fraction {ds places : List Char} {n m : Nat} : Denotes ds n → Denotes places m →
    IsMagnitude (ds ++ '.' :: places) (n + m / 10 ^ places.length)

/-- The characters are a decimal of the number: a hyphen or none, then a magnitude. -/
inductive Shows : List Char → ℚ → Prop where
  | positive {cs : List Char} {q : ℚ} : IsMagnitude cs q → Shows cs q
  | negative {cs : List Char} {q : ℚ} : IsMagnitude cs q → Shows ('-' :: cs) (-q)

/-- The point and the places of a canonical decimal: none, or one or two that end in no zero. -/
inductive IsPlaces : List Char → Prop where
  | none : IsPlaces []
  | one {c : Char} : c.isDigit = true → c ≠ '0' → IsPlaces ['.', c]
  | two {c d : Char} : c.isDigit = true → d.isDigit = true → d ≠ '0' → IsPlaces ['.', c, d]

/-- A canonical decimal: a hyphen just for a negative number, digits without needless zeros at the
front, then the places. -/
inductive IsCanonical (negative : Bool) : List Char → Prop where
  | mk {ds places : List Char} : Sexp.Digits ds → Tight ds → IsPlaces places →
    IsCanonical negative ((if negative then ['-'] else []) ++ (ds ++ places))

open Sexp (Digits Stops)

theorem IsMagnitude.isDecimal {cs : List Char} {q : ℚ} (magnitude : IsMagnitude cs q) :
    Sexp.IsDecimal cs := by
  cases magnitude with
  | whole denotes => exact .whole denotes.digits
  | fraction denotes behind => exact .fraction denotes.digits behind.digits

theorem IsMagnitude.unique {cs : List Char} {q q' : ℚ} (first : IsMagnitude cs q)
    (second : IsMagnitude cs q') : q = q' := by
  have stops : ∀ places : List Char, Stops Char.isDigit ('.' :: places) := by
    rintro places _ ⟨⟩
    rfl
  have stopsAtEnd : Stops Char.isDigit [] := nofun
  generalize same : cs = cs' at second
  cases first with
  | @whole ds n denotes =>
    cases second with
    | whole denotes' =>
      subst same
      rw [denotes.unique denotes']
    | @fraction ds' places _ _ denotes' _ =>
      have apart := Sexp.split_unique denotes.digits.2 denotes'.digits.2 stopsAtEnd
        (stops places) (by rw [List.append_nil, same])
      cases apart.2
  | @fraction ds places n m denotes behind =>
    cases second with
    | @whole ds' _ denotes' =>
      have apart := Sexp.split_unique denotes.digits.2 denotes'.digits.2
        (stops places) stopsAtEnd (by rw [List.append_nil, same])
      cases apart.2
    | @fraction ds' places' _ _ denotes' behind' =>
      obtain ⟨rfl, tails⟩ := Sexp.split_unique denotes.digits.2 denotes'.digits.2
        (stops places) (stops places') same
      cases tails
      rw [denotes.unique denotes', behind.unique behind']

theorem IsMagnitude.not_negative {cs : List Char} {q : ℚ} : ¬IsMagnitude ('-' :: cs) q := by
  intro magnitude
  obtain ⟨ds, places, digits, _, same⟩ := magnitude.isDecimal.exists_pointed
  apply Fixed.not_sign_of_digits digits
  rw [← List.head?_append_of_ne_nil _ digits.1, ← same]
  rfl

/-- A decimal has one value. -/
theorem Shows.unique {cs : List Char} {q q' : ℚ} (first : Shows cs q) (second : Shows cs q') :
    q = q' := by
  cases first with
  | positive magnitude =>
    cases second with
    | positive magnitude' => exact magnitude.unique magnitude'
    | negative _ => exact absurd magnitude IsMagnitude.not_negative
  | negative magnitude =>
    cases second with
    | positive magnitude' => exact absurd magnitude' IsMagnitude.not_negative
    | negative magnitude' => rw [magnitude.unique magnitude']

theorem Shows.isNumber {cs : List Char} {q : ℚ} (decimal : Shows cs q) : Sexp.IsNumber cs := by
  cases decimal with
  | positive magnitude => exact .positive magnitude.isDecimal
  | negative magnitude => exact .negative magnitude.isDecimal

/-! ## Places -/

theorem digitValue_digitChar {n : Nat} (small : n < 10) : digitValue (Nat.digitChar n) = n := by
  have zero : '0'.toNat = 48 := rfl
  rw [digitValue, Nat.toNat_digitChar_of_lt_ten small]
  omega

theorem denotes_digitChar {n : Nat} (small : n < 10) : Denotes [Nat.digitChar n] n := by
  have denotes := denotes_toDigits n
  rwa [Nat.toDigits_of_lt_base small] at denotes

theorem isDigit_digitChar {n : Nat} (small : n < 10) : (Nat.digitChar n).isDigit = true :=
  (denotes_digitChar small).digits.2 _ (by simp)

theorem digitChar_ne_zero {n : Nat} (small : n < 10) (positive : n ≠ 0) :
    Nat.digitChar n ≠ '0' := by
  intro zero
  have value := digitValue_digitChar small
  rw [zero] at value
  exact positive value.symm

theorem digitValue_ne_zero {c : Char} (isDigit : c.isDigit = true) (nonzero : c ≠ '0') :
    digitValue c ≠ 0 := by
  intro zero
  apply nonzero
  rw [← digitChar_digitValue isDigit, zero]
  rfl

namespace Fixed

theorem toList_fractionText {h : Nat} (small : h < 100) :
    (fractionText h).toList =
      if h = 0 then []
      else if h % 10 = 0 then ['.', Nat.digitChar (h / 10)]
      else ['.', Nat.digitChar (h / 10), Nat.digitChar (h % 10)] := by
  have digits : ∀ n : Nat, (toString n).toList = Nat.toDigits 10 n := fun n => Nat.toList_repr
  unfold fractionText
  split
  · rfl
  · split
    · rw [String.toList_append, digits, Nat.toDigits_of_lt_base (by omega)]
      rfl
    · split
      · rename_i single
        rw [String.toList_append, digits, Nat.toDigits_of_lt_base single,
          Nat.div_eq_of_lt single, Nat.mod_eq_of_lt single]
        rfl
      · have both := Nat.toDigits_append_toDigits (b := 10) (n := h / 10) (d := h % 10) (by decide)
          (by omega) (Nat.mod_lt h (by decide))
        rw [Nat.div_add_mod, Nat.toDigits_of_lt_base (by omega),
          Nat.toDigits_of_lt_base (by omega)] at both
        rw [String.toList_append, digits, ← both]
        rfl

theorem isPlaces_fractionText {h : Nat} (small : h < 100) :
    IsPlaces (fractionText h).toList := by
  rw [toList_fractionText small]
  split
  · exact .none
  · split
    · exact .one (isDigit_digitChar (by omega)) (digitChar_ne_zero (by omega) (by omega))
    · rename_i rest
      exact .two (isDigit_digitChar (by omega)) (isDigit_digitChar (by omega))
        (digitChar_ne_zero (by omega) rest)

theorem isMagnitude_fractionText {ds : List Char} {n h : Nat} (denotes : Denotes ds n)
    (small : h < 100) :
    IsMagnitude (ds ++ (fractionText h).toList) (((100 * n + h : Nat) : ℚ) / 100) := by
  rw [toList_fractionText small]
  split
  · rename_i zero
    subst zero
    rw [List.append_nil]
    have value : ((100 * n + 0 : Nat) : ℚ) / 100 = n := by
      push_cast
      ring
    rw [value]
    exact .whole denotes
  · split
    · rename_i rest
      have value : ((100 * n + h : Nat) : ℚ) / 100 = n + ((h / 10 : Nat) : ℚ) / 10 ^ 1 := by
        have whole : 100 * n + h = 100 * n + 10 * (h / 10) := by omega
        rw [whole]
        push_cast
        ring
      rw [value]
      exact .fraction denotes (denotes_digitChar (by omega))
    · have both := Denotes.place (denotes_digitChar (n := h / 10) (by omega))
        (isDigit_digitChar (n := h % 10) (by omega))
      rw [digitValue_digitChar (by omega), Nat.div_add_mod] at both
      have value : ((100 * n + h : Nat) : ℚ) / 100 = n + (h : ℚ) / 10 ^ 2 := by
        push_cast
        ring
      rw [value]
      exact .fraction denotes both

end Fixed

theorem IsPlaces.exists_fractionText {cs : List Char} (places : IsPlaces cs) :
    ∃ h < 100, cs = (Fixed.fractionText h).toList := by
  cases places with
  | none => exact ⟨0, by decide, rfl⟩
  | @one c isDigit nonzero =>
    have small := digitValue_lt isDigit
    have positive := digitValue_ne_zero isDigit nonzero
    refine ⟨10 * digitValue c, by omega, ?_⟩
    rw [Fixed.toList_fractionText (by omega), if_neg (by omega), if_pos (by omega),
      Nat.mul_div_cancel_left _ (by decide), digitChar_digitValue isDigit]
  | @two c d isDigit isDigit' nonzero =>
    have small := digitValue_lt isDigit
    have small' := digitValue_lt isDigit'
    have positive := digitValue_ne_zero isDigit' nonzero
    have tenths : (10 * digitValue c + digitValue d) / 10 = digitValue c := by omega
    have last : (10 * digitValue c + digitValue d) % 10 = digitValue d := by omega
    refine ⟨10 * digitValue c + digitValue d, by omega, ?_⟩
    rw [Fixed.toList_fractionText (by omega), if_neg (by omega), if_neg (by omega), tenths, last,
      digitChar_digitValue isDigit, digitChar_digitValue isDigit']

namespace Fixed

/-! ## The notation of numbers -/

/-- The decimal for a sign and a count of hundredths. -/
def decimalChars (negative : Bool) (hundredths : Nat) : List Char :=
  (if negative then ['-'] else []) ++
    (Nat.toDigits 10 (hundredths / 100) ++ (fractionText (hundredths % 100)).toList)

def decimalValue (negative : Bool) (hundredths : Nat) : ℚ :=
  if negative then -(hundredths / 100) else hundredths / 100

theorem toList_toDecimal (a : Fixed) :
    a.toDecimal.toList = decimalChars (a.raw < 0) a.raw.natAbs := by
  have digits : (toString (a.raw.natAbs / 100)).toList = Nat.toDigits 10 (a.raw.natAbs / 100) :=
    Nat.toList_repr
  have sign : (if a.raw < 0 then "-" else "").toList =
      if decide (a.raw < 0) = true then ['-'] else [] := by
    by_cases negative : a.raw < 0 <;> simp [negative]
  rw [toDecimal, decimalChars, String.toList_append, String.toList_append, digits, sign,
    List.append_assoc]

theorem decimalValue_raw (a : Fixed) :
    decimalValue (a.raw < 0) a.raw.natAbs = (a.raw : ℚ) / 100 := by
  rw [decimalValue]
  by_cases negative : a.raw < 0
  · rw [if_pos (decide_eq_true negative), Nat.cast_natAbs, abs_of_neg negative]
    push_cast
    ring
  · rw [if_neg (by simpa using negative), Nat.cast_natAbs, abs_of_nonneg (not_lt.1 negative)]

theorem shows_decimalChars (negative : Bool) (hundredths : Nat) :
    Shows (decimalChars negative hundredths) (decimalValue negative hundredths) := by
  have magnitude := isMagnitude_fractionText (denotes_toDigits (hundredths / 100))
    (Nat.mod_lt hundredths (by decide))
  rw [Nat.div_add_mod] at magnitude
  cases negative with
  | false => exact .positive magnitude
  | true => exact .negative magnitude

theorem isCanonical_decimalChars (negative : Bool) (hundredths : Nat) :
    IsCanonical negative (decimalChars negative hundredths) :=
  .mk (digits_toDigits _) (tight_toDigits _)
    (isPlaces_fractionText (Nat.mod_lt hundredths (by decide)))

end Fixed

theorem IsCanonical.exists_decimalChars {negative : Bool} {cs : List Char}
    (canonical : IsCanonical negative cs) :
    ∃ hundredths, cs = Fixed.decimalChars negative hundredths := by
  obtain ⟨digits, tight, places⟩ := canonical
  obtain ⟨h, small, rfl⟩ := places.exists_fractionText
  have whole := (Denotes.of_digits digits).eq_toDigits tight
  generalize Nat.ofDigitChars 10 _ 0 = n at whole
  subst whole
  refine ⟨100 * n + h, ?_⟩
  have front : (100 * n + h) / 100 = n := by omega
  have behind : (100 * n + h) % 100 = h := by omega
  rw [Fixed.decimalChars, front, behind]

namespace Fixed

theorem decimalValue_inj {negative : Bool} {m m' : Nat}
    (same : decimalValue negative m = decimalValue negative m') : m = m' := by
  cases negative <;> simpa [decimalValue] using same

theorem shows_toDecimal_iff (a : Fixed) (q : ℚ) :
    Shows a.toDecimal.toList q ↔ q = a.raw / 100 := by
  have decimal := shows_decimalChars (a.raw < 0) a.raw.natAbs
  rw [← toList_toDecimal, decimalValue_raw] at decimal
  constructor
  · exact fun decimal' => decimal'.unique decimal
  · rintro rfl
    exact decimal

/-- The decimal of a number is the only canonical one with its value. -/
theorem eq_toDecimal_iff (a : Fixed) (text : String) :
    text = a.toDecimal ↔
      IsCanonical (a.raw < 0) text.toList ∧ Shows text.toList (a.raw / 100) := by
  constructor
  · rintro rfl
    exact ⟨toList_toDecimal a ▸ isCanonical_decimalChars _ _, (shows_toDecimal_iff a _).2 rfl⟩
  · rintro ⟨canonical, decimal⟩
    obtain ⟨m, same⟩ := canonical.exists_decimalChars
    rw [same] at decimal
    have value := decimal.unique (shows_decimalChars _ m)
    rw [← decimalValue_raw] at value
    rw [← String.toList_inj, same, toList_toDecimal, decimalValue_inj value]

theorem toDecimal_injective : Function.Injective toDecimal := by
  intro a b same
  have value := (shows_toDecimal_iff a _).2 rfl
  rw [same, shows_toDecimal_iff] at value
  have cast : (a.raw : ℚ) = b.raw := by linarith
  exact ext_raw (by exact_mod_cast cast)

end Fixed

/-! ## Range messages -/

/-- The message is about three decimals, and they show these numbers. -/
def ShowsRange (message : String) (actual least most : ℚ) : Prop :=
  ∃ x y z : String, message = x ++ " is not in range [" ++ y ++ ", " ++ z ++ "]" ∧
    Shows x.toList actual ∧ Shows y.toList least ∧ Shows z.toList most

/-- Where a decimal ends in a text is settled by what follows. -/
theorem Shows.split_unique {cs cs' rest rest' : List Char} {q q' : ℚ} (first : Shows cs q)
    (second : Shows cs' q') (stops : Stops Sexp.isSymbolChar rest)
    (stops' : Stops Sexp.isSymbolChar rest') (same : cs ++ rest = cs' ++ rest') :
    q = q' ∧ rest = rest' := by
  obtain ⟨rfl, tails⟩ := Sexp.split_unique first.isNumber.isSymbolChar
    second.isNumber.isSymbolChar stops stops' same
  exact ⟨first.unique second, tails⟩

theorem ShowsRange.unique {message : String} {p q r p' q' r' : ℚ}
    (first : ShowsRange message p q r) (second : ShowsRange message p' q' r') :
    p = p' ∧ q = q' ∧ r = r' := by
  obtain ⟨x, y, z, whole, showsX, showsY, showsZ⟩ := first
  obtain ⟨x', y', z', whole', showsX', showsY', showsZ'⟩ := second
  have same := congrArg String.toList (whole.symm.trans whole')
  simp only [String.toList_append, List.append_assoc] at same
  have stops : ∀ cs : List Char, Stops Sexp.isSymbolChar (" is not in range [".toList ++ cs) := by
    rintro cs _ ⟨⟩
    rfl
  have stopsAtComma : ∀ cs : List Char, Stops Sexp.isSymbolChar (", ".toList ++ cs) := by
    rintro cs _ ⟨⟩
    rfl
  have stopsAtEnd : Stops Sexp.isSymbolChar "]".toList := by
    rintro _ ⟨⟩
    rfl
  obtain ⟨actual, same⟩ := showsX.split_unique showsX' (stops _) (stops _) same
  obtain ⟨least, same⟩ := showsY.split_unique showsY' (stopsAtComma _) (stopsAtComma _)
    (List.append_cancel_left same)
  obtain ⟨most, _⟩ := showsZ.split_unique showsZ' stopsAtEnd stopsAtEnd
    (List.append_cancel_left same)
  exact ⟨actual, least, most⟩

namespace Fixed

theorem showsRange_message_iff (actual least most : Fixed) (p q r : ℚ) :
    ShowsRange (ScriptError.range actual least most).message p q r ↔
      p = actual.raw / 100 ∧ q = least.raw / 100 ∧ r = most.raw / 100 := by
  have written : ShowsRange (ScriptError.range actual least most).message (actual.raw / 100)
      (least.raw / 100) (most.raw / 100) :=
    ⟨_, _, _, rfl, (shows_toDecimal_iff _ _).2 rfl, (shows_toDecimal_iff _ _).2 rfl,
      (shows_toDecimal_iff _ _).2 rfl⟩
  constructor
  · exact fun read => read.unique written
  · rintro ⟨rfl, rfl, rfl⟩
    exact written

end Fixed

theorem ValueDef.eq_range_of_inRange {least most : Fixed} {value : Value} {error : ScriptError}
    (failed : inRange least most value = .error error) (kind : error.kind = .outOfRange) :
    ∃ a, value = .number a ∧ error = .range a least most := by
  cases value with
  | string s =>
    cases failed
    cases kind
  | number a =>
    simp only [inRange, Value.asNumber] at failed
    split at failed
    · cases failed
      exact ⟨a, rfl, rfl⟩
    · cases failed

/-! ## Constants in descriptions -/

namespace Expr

theorem describe_constant_beside (c : Comparison) (a : Fixed) {binding : SignalBinding}
    (usual : binding.definition.result.formatter = none) :
    describe (.operator (.comparison c) [.constant (.number a), .signal binding]) =
      a.toDecimal ++ " " ++ c.sign ++ " " ++ binding.definition.display ∧
    describe (.operator (.comparison c) [.signal binding, .constant (.number a)]) =
      binding.definition.display ++ " " ++ c.sign ++ " " ++ a.toDecimal := by
  have arity : (Operator.comparison c).arity.Admits 2 := by simp [Operator.arity, Arity.Admits]
  have shown : binding.definition.result.format (.number a) = a.toDecimal := by
    rw [ValueDef.format, usual]
  constructor <;>
    simp [describe, describeAll, operatorText, besideText, arity, shown]

theorem describeAll_eq_map (exprs : List Expr) : describeAll exprs = exprs.map describe := by
  induction exprs with
  | nil => rfl
  | cons expr exprs ih => rw [describeAll, ih, List.map_cons]

theorem getElem?_argumentTexts {ds : List ValueDef} {args : List Expr} {texts : List String}
    {i : Nat} {d : ValueDef} {arg : Expr} {text : String} (definition : ds[i]? = some d)
    (argument : args[i]? = some arg) (described : texts[i]? = some text) :
    (argumentTexts ds args texts)[i]? = some (argumentText d arg text) := by
  induction i generalizing ds args texts with
  | zero =>
    obtain ⟨ds, rfl⟩ := List.head?_eq_some_iff.1 (List.head?_eq_getElem?.trans definition)
    obtain ⟨args, rfl⟩ := List.head?_eq_some_iff.1 (List.head?_eq_getElem?.trans argument)
    obtain ⟨texts, rfl⟩ := List.head?_eq_some_iff.1 (List.head?_eq_getElem?.trans described)
    rfl
  | succ i ih =>
    cases ds with
    | nil => cases definition
    | cons _ ds =>
      cases args with
      | nil => cases argument
      | cons _ args =>
        cases texts with
        | nil => cases described
        | cons _ texts => exact ih definition argument described

theorem describe_action_of_argument {once : Bool} {binding : ActionBinding} {args : List Expr}
    {i : Nat} {arg : Expr} {d : ValueDef} (argument : args[i]? = some arg)
    (definition : binding.definition.arguments[i]? = some d) :
    ∃ texts, describe (.action once binding args) = binding.definition.display ++
        ("(" ++ ", ".intercalate texts ++ ")") ++ (if once then " (once)" else "") ∧
      texts[i]? = some (argumentText d arg (describe arg)) := by
  have described : (describeAll args)[i]? = some (describe arg) := by
    rw [describeAll_eq_map, List.getElem?_map, argument]
    rfl
  have shown := getElem?_argumentTexts definition argument described
  refine ⟨_, ?_, shown⟩
  have nonempty : (argumentTexts binding.definition.arguments args (describeAll args)).isEmpty =
      false := by
    rw [List.isEmpty_eq_false_iff]
    intro none
    rw [none] at shown
    cases shown
  simp [describe, callText, nonempty]

end Expr

/-- The decimal of a number is the one canonical text with its value, and it shows no other number.
So numbers have different decimals; and neither a range message nor a described constant, be it
beside a signal, an argument, or for itself as a literal, can be taken to show another number. -/
theorem decimals_exact :
    (∀ (a : Fixed) (text : String), text = a.toDecimal ↔
      IsCanonical (a.raw < 0) text.toList ∧ Shows text.toList (a.raw / 100)) ∧
    (∀ (a : Fixed) (q : ℚ), Shows a.toDecimal.toList q ↔ q = a.raw / 100) ∧
    (∀ a b : Fixed, a.toDecimal = b.toDecimal → a = b) ∧
    (∀ (least most : Fixed) (value : Value) (error : ScriptError),
      ValueDef.inRange least most value = .error error → error.kind = .outOfRange →
      ∃ a, value = .number a ∧ ∀ p q r, ShowsRange error.message p q r ↔
        p = a.raw / 100 ∧ q = least.raw / 100 ∧ r = most.raw / 100) ∧
    (∀ (c : Comparison) (a : Fixed) (binding : SignalBinding),
      binding.definition.result.formatter = none →
      ∃ text : String, (∀ q, Shows text.toList q ↔ q = a.raw / 100) ∧
        Expr.describe (.operator (.comparison c) [.constant (.number a), .signal binding]) =
          text ++ " " ++ c.sign ++ " " ++ binding.definition.display ∧
        Expr.describe (.operator (.comparison c) [.signal binding, .constant (.number a)]) =
          binding.definition.display ++ " " ++ c.sign ++ " " ++ text) ∧
    (∀ (once : Bool) (binding : ActionBinding) (args : List Expr) (i : Nat) (a : Fixed)
      (d : ValueDef), args[i]? = some (.constant (.number a)) →
      binding.definition.arguments[i]? = some d → d.formatter = none →
      ∃ (texts : List String) (text : String),
        Expr.describe (.action once binding args) = binding.definition.display ++
          ("(" ++ ", ".intercalate texts ++ ")") ++ (if once then " (once)" else "") ∧
        texts[i]? = some text ∧ ∀ q, Shows text.toList q ↔ q = a.raw / 100) ∧
    (∀ (a : Fixed) (n : Int),
      Fixed.IsLiteral (Expr.describe (.constant (.number a))).toList n ↔ n = a.raw) := by
  refine ⟨Fixed.eq_toDecimal_iff, Fixed.shows_toDecimal_iff,
    fun a b => @Fixed.toDecimal_injective a b, ?range, ?beside, ?argument, ?literal⟩
  case range =>
    intro least most value error failed kind
    obtain ⟨a, rfl, rfl⟩ := ValueDef.eq_range_of_inRange failed kind
    exact ⟨a, rfl, Fixed.showsRange_message_iff a least most⟩
  case beside =>
    intro c a binding usual
    exact ⟨a.toDecimal, Fixed.shows_toDecimal_iff a, Expr.describe_constant_beside c a usual⟩
  case argument =>
    intro once binding args i a d argument definition usual
    obtain ⟨texts, described, shown⟩ :=
      @Expr.describe_action_of_argument once _ _ _ _ _ argument definition
    rw [Expr.argumentText, ValueDef.format, usual] at shown
    exact ⟨texts, a.toDecimal, described, shown, Fixed.shows_toDecimal_iff a⟩
  case literal =>
    intro a n
    have literal := Fixed.ofLiteral_eq_ok_iff_isLiteral.1 (Fixed.ofLiteral_toLiteral a)
    have described : Expr.describe (.constant (.number a)) = a.toLiteral := rfl
    rw [described]
    constructor
    · exact fun literal' => literal'.unique literal
    · rintro rfl
      exact literal

/-- A number between minus one and zero has its sign, its zero and both of its places, and the least
number is shown whole, where it is a bound, beside a signal and as an argument. -/
theorem decimals_exact_below_zero :
    let small : Fixed := ⟨-5, by decide, by decide⟩
    let least : Fixed := ⟨-2147483648, by decide, by decide⟩
    let level : SignalBinding :=
      ⟨⟨"Lamp.Level", ⟨1⟩⟩, { name := "Lamp.Level", display := "Level", result := .number }⟩
    let dim : ActionBinding :=
      ⟨⟨"Lamp.Dim", ⟨1⟩⟩, { name := "Lamp.Dim", display := "Dim", arguments := [.number] }⟩
    (small.toDecimal = "-0.05" ∧ IsCanonical true "-0.05".toList ∧
      Shows "-0.05".toList (small.raw / 100)) ∧
    (least.toDecimal = "-21474836.48" ∧ least.toDecimal ≠ small.toDecimal) ∧
    (∀ p q r, ShowsRange "-21474836.48 is not in range [-0.05, 0]" p q r ↔
      p = least.raw / 100 ∧ q = small.raw / 100 ∧ r = (Fixed.zero.raw : ℚ) / 100) ∧
    (∃ text : String, (∀ q, Shows text.toList q ↔ q = least.raw / 100) ∧
      Expr.describe (.operator (.comparison .lt) [.constant (.number least), .signal level]) =
        text ++ " < Level") ∧
    (∃ (texts : List String) (text : String),
      Expr.describe (.action true dim [.constant (.number small)]) =
        "Dim" ++ ("(" ++ ", ".intercalate texts ++ ")") ++ " (once)" ∧
      texts[0]? = some text ∧ ∀ q, Shows text.toList q ↔ q = small.raw / 100) := by
  intro small least level dim
  obtain ⟨canonical, _, injective, range, beside, argument, _⟩ := decimals_exact
  have shown : small.toDecimal = "-0.05" := by decide +kernel
  refine ⟨⟨shown, (canonical small "-0.05").1 shown.symm⟩, ⟨by decide +kernel, ?_⟩, ?_, ?_,
    argument true dim _ 0 small .number rfl rfl rfl⟩
  · intro same
    exact absurd (injective least small same) (by decide)
  · obtain ⟨a, value, read⟩ := range small Fixed.zero (.number least)
      (.range least small Fixed.zero) (by decide +kernel) rfl
    obtain rfl : least = a := Value.number.inj value
    have message : (ScriptError.range least small Fixed.zero).message =
        "-21474836.48 is not in range [-0.05, 0]" := by decide +kernel
    rwa [message] at read
  · obtain ⟨text, read, described, _⟩ := beside .lt least level rfl
    refine ⟨text, read, described.trans ?_⟩
    rw [String.append_assoc, String.append_assoc, String.append_assoc]
    rfl

end SignalRules
