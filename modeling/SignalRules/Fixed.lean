/-! # Fixed-point numbers

A `Fixed` is a decimal number with two places, kept as its count of hundredths. The count fits a
signed 32-bit word, and the type carries the proof. Arithmetic is computed on the unbounded
integers and then either fits or is refused; nothing wraps.
-/

namespace SignalRules

/-- A number of hundredths between `-2^31` and `2^31 - 1`. -/
structure Fixed where
  raw : Int
  lower : -2147483648 ≤ raw
  upper : raw ≤ 2147483647
  deriving DecidableEq

namespace Fixed

def scale : Int := 100

theorem ext_raw {a b : Fixed} (h : a.raw = b.raw) : a = b := by
  cases a
  cases b
  simp_all

/-- The number with this count of hundredths, if the count fits. -/
def ofRaw? (raw : Int) : Option Fixed :=
  if h : -2147483648 ≤ raw ∧ raw ≤ 2147483647 then some ⟨raw, h.1, h.2⟩ else none

/-- The number with this count of hundredths, or the nearest bound. -/
def clamp (raw : Int) : Fixed :=
  if lower : -2147483648 ≤ raw then
    if upper : raw ≤ 2147483647 then ⟨raw, lower, upper⟩ else ⟨2147483647, by decide, by decide⟩
  else ⟨-2147483648, by decide, by decide⟩

instance : Inhabited Fixed := ⟨⟨0, by decide, by decide⟩⟩

def zero : Fixed := ⟨0, by decide, by decide⟩

def one : Fixed := ⟨100, by decide, by decide⟩

/-- A whole number; one out of range becomes the nearest bound. -/
def ofInt (n : Int) : Fixed :=
  clamp (n * scale)

def ofBool : Bool → Fixed
  | true => one
  | false => zero

/-- The whole part, rounded toward zero. -/
def toInt (a : Fixed) : Int :=
  a.raw.tdiv scale

theorem ofRaw?_eq_some_iff {raw : Int} {a : Fixed} : ofRaw? raw = some a ↔ a.raw = raw := by
  unfold ofRaw?
  split
  · constructor
    · rintro ⟨⟩
      rfl
    · intro h
      exact congrArg some (ext_raw h.symm)
  · rename_i h
    constructor
    · intro h'
      cases h'
    · rintro rfl
      exact absurd ⟨a.lower, a.upper⟩ h

/-! ## Arithmetic -/

def add? (a b : Fixed) : Option Fixed :=
  ofRaw? (a.raw + b.raw)

def sub? (a b : Fixed) : Option Fixed :=
  ofRaw? (a.raw - b.raw)

/-- The product, rounded toward zero. -/
def mul? (a b : Fixed) : Option Fixed :=
  ofRaw? ((a.raw * b.raw).tdiv scale)

/-- The quotient by a number other than zero, rounded toward zero. -/
def div? (a b : Fixed) : Option Fixed :=
  ofRaw? ((a.raw * scale).tdiv b.raw)

def cmp (a b : Fixed) : Ordering :=
  compare a.raw b.raw

/-! ## Text -/

/-- The two decimal places of `hundredths < 100`, with their point; a zero at the end is left out. -/
def fractionText (hundredths : Nat) : String :=
  if hundredths = 0 then ""
  else if hundredths % 10 = 0 then "." ++ toString (hundredths / 10)
  else if hundredths < 10 then ".0" ++ toString hundredths
  else "." ++ toString hundredths

/-- The number in decimal notation, as short as it is exact: `4.5`, `-0.05`, `500`. -/
def toDecimal (a : Fixed) : String :=
  (if a.raw < 0 then "-" else "") ++ toString (a.raw.natAbs / 100)
    ++ fractionText (a.raw.natAbs % 100)

/-- The number as scripts write it: its count of hundredths. -/
def toLiteral (a : Fixed) : String :=
  toString a.raw

inductive LiteralError where
  /-- A decimal point: literals count hundredths. -/
  | decimalPoint (text : String)
  /-- Something besides one optional sign and digits. -/
  | malformed (text : String)
  | tooLarge (text : String)
  deriving DecidableEq

/-- Read a literal: an optional `-`, then ASCII digits. -/
def ofLiteral (text : String) : Except LiteralError Fixed :=
  let negative := text.toList.head? = some '-'
  let digits := if negative then text.toList.tail else text.toList
  if '.' ∈ digits then .error (.decimalPoint text)
  else if digits.isEmpty || !digits.all Char.isDigit then .error (.malformed text)
  else
    let magnitude : Int := Nat.ofDigitChars 10 digits 0
    match ofRaw? (if negative then -magnitude else magnitude) with
    | some a => .ok a
    | none => .error (.tooLarge text)

end Fixed

end SignalRules
