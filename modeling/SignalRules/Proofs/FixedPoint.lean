import Mathlib.Algebra.Order.Floor.Div
import Mathlib.Data.Int.Basic
import SignalRules.Value.Arithmetic

/-! # Exact arithmetic

Sums and differences of counts of hundredths are exact, products and quotients are rounded toward
zero, and what does not fit is refused. The 64-bit words of an implementation that wraps around
hold everything that comes up on the way. A quotient that is multiplied by the divisor again falls
short of the dividend by little.
-/

namespace SignalRules

/-- `q` is `n` divided by `d`, rounded toward zero: what is left over is smaller than the divisor
and on the side of the dividend. -/
def Truncates (n d q : Int) : Prop :=
  ∃ r, n = q * d + r ∧ r.natAbs < d.natAbs ∧ (0 ≤ n → 0 ≤ r) ∧ (n ≤ 0 → r ≤ 0)

theorem truncates_tdiv (n : Int) {d : Int} (nonzero : d ≠ 0) : Truncates n d (n.tdiv d) := by
  refine ⟨n.tmod d, ?_, ?_, fun positive => Int.tmod_nonneg d positive, fun negative => ?_⟩
  · rw [Int.mul_comm]
    exact (Int.mul_tdiv_add_tmod n d).symm
  · rw [Int.natAbs_tmod]
    exact Nat.mod_lt _ (Int.natAbs_pos.2 nonzero)
  · have mirrored := Int.tmod_nonneg d (Int.neg_nonneg_of_nonpos negative)
    rw [Int.neg_tmod] at mirrored
    exact Int.nonpos_of_neg_nonneg mirrored

theorem Truncates.unique {n d q q' : Int} (first : Truncates n d q) (second : Truncates n d q') :
    q = q' := by
  obtain ⟨r, whole, small, above, below⟩ := first
  obtain ⟨r', whole', small', above', below'⟩ := second
  have difference : (q - q') * d = r' - r := by
    rw [Int.sub_mul]
    omega
  -- both remainders are on one side of zero, so they differ by less than the divisor
  have close : (r' - r).natAbs < d.natAbs := by
    rcases Int.le_total 0 n with positive | negative
    · have := above positive
      have := above' positive
      omega
    · have := below negative
      have := below' negative
      omega
  have equal : (q - q') * d = 0 := by
    rw [difference]
    exact Int.eq_zero_of_dvd_of_natAbs_lt_natAbs ⟨q - q', by rw [← difference, Int.mul_comm]⟩ close
  have nonzero : d ≠ 0 := by
    rintro rfl
    exact absurd small (Nat.not_lt_zero _)
  exact Int.eq_of_sub_eq_zero ((Int.mul_eq_zero.1 equal).resolve_right nonzero)

theorem truncates_iff {n d q : Int} (nonzero : d ≠ 0) : Truncates n d q ↔ q = n.tdiv d := by
  constructor
  · intro truncates
    exact truncates.unique (truncates_tdiv n nonzero)
  · rintro rfl
    exact truncates_tdiv n nonzero

namespace Arithmetic

/-- The count of hundredths that an operation is to give for two others. -/
def Exact : Arithmetic → Int → Int → Int → Prop
  | .add, a, b, c => c = a + b
  | .sub, a, b, c => c = a - b
  | .mul, a, b, c => Truncates (a * b) 100 c
  | .div, a, b, c => b ≠ 0 ∧ Truncates (100 * a) b c

/-- The integers that an operation comes to on its way, the result last. -/
def stages : Arithmetic → Int → Int → List Int
  | .add, a, b => [a + b]
  | .sub, a, b => [a - b]
  | .mul, a, b => [a * b, (a * b).tdiv 100]
  | .div, a, b => [a * 100, (a * 100).tdiv b]

/-- The same in 64-bit words, which wrap around. -/
def words : Arithmetic → Int64 → Int64 → List Int64
  | .add, a, b => [a + b]
  | .sub, a, b => [a - b]
  | .mul, a, b => [a * b, a * b / 100]
  | .div, a, b => [a * 100, a * 100 / b]

/-- An operation on numbers comes to its stages and fits the last of them. -/
theorem onNumbers_eq (op : Arithmetic) (a b : Fixed) :
    op.onNumbers a b =
      if op = .div ∧ b.raw = 0 then .error (.evaluation .divisionByZero)
      else
        match (op.stages a.raw b.raw).getLast?.bind Fixed.ofRaw? with
        | some c => .ok c
        | none => .error (.evaluation (.overflow op)) := by
  cases op with
  | add | sub | mul => rfl
  | div =>
    unfold onNumbers
    by_cases zero : b.raw = 0
    · simp only [zero, if_true, and_self]
    · simp only [zero, if_false, and_false]
      rfl

theorem exact_iff (op : Arithmetic) (a b c : Int) :
    op.Exact a b c ↔ ¬(op = .div ∧ b = 0) ∧ (op.stages a b).getLast? = some c := by
  have hundred : (100 : Int) ≠ 0 := by decide
  cases op with
  | add | sub => simp [Exact, stages, eq_comm]
  | mul => simp [Exact, stages, truncates_iff hundred, eq_comm]
  | div =>
    by_cases zero : b = 0
    · simp [Exact, zero]
    · simp [Exact, stages, zero, truncates_iff zero, Int.mul_comm 100, eq_comm]

/-! ## Words -/

theorem natAbs_mul_le (a b : Fixed) : (a.raw * b.raw).natAbs ≤ 4611686018427387904 := by
  have := a.lower
  have := a.upper
  have := b.lower
  have := b.upper
  rw [Int.natAbs_mul]
  calc a.raw.natAbs * b.raw.natAbs ≤ 2147483648 * 2147483648 :=
        Nat.mul_le_mul (by omega) (by omega)
    _ = 4611686018427387904 := rfl

theorem natAbs_tdiv_le (n d : Int) : (n.tdiv d).natAbs ≤ n.natAbs := by
  rw [Int.natAbs_tdiv]
  exact Nat.div_le_self _ _

/-- No operation on counts of hundredths wraps around on its way. -/
theorem map_toInt_words (op : Arithmetic) (a b : Fixed) :
    (op.words (.ofInt a.raw) (.ofInt b.raw)).map Int64.toInt = op.stages a.raw b.raw := by
  have aLower := a.lower
  have aUpper := a.upper
  have bLower := b.lower
  have bUpper := b.upper
  have toIntA : (Int64.ofInt a.raw).toInt = a.raw := Int64.toInt_ofInt_of_le (by omega) (by omega)
  have toIntB : (Int64.ofInt b.raw).toInt = b.raw := Int64.toInt_ofInt_of_le (by omega) (by omega)
  have toIntHundred : (100 : Int64).toInt = 100 := rfl
  cases op with
  | add =>
    simp only [words, stages, List.map_cons, List.map_nil, Int64.toInt_add, toIntA, toIntB]
    rw [Int.bmod_eq_of_le (by omega) (by omega)]
  | sub =>
    simp only [words, stages, List.map_cons, List.map_nil, Int64.toInt_sub, toIntA, toIntB]
    rw [Int.bmod_eq_of_le (by omega) (by omega)]
  | mul =>
    have product := natAbs_mul_le a b
    have quotient := natAbs_tdiv_le (a.raw * b.raw) 100
    simp only [words, stages, List.map_cons, List.map_nil, Int64.toInt_div, Int64.toInt_mul, toIntA,
      toIntB, toIntHundred]
    rw [Int.bmod_eq_of_le (n := a.raw * b.raw) (by omega) (by omega),
      Int.bmod_eq_of_le (by omega) (by omega)]
  | div =>
    have quotient := natAbs_tdiv_le (a.raw * 100) b.raw
    simp only [words, stages, List.map_cons, List.map_nil, Int64.toInt_div, Int64.toInt_mul, toIntA,
      toIntB, toIntHundred]
    rw [Int.bmod_eq_of_le (n := a.raw * 100) (by omega) (by omega),
      Int.bmod_eq_of_le (by omega) (by omega)]

/-! ## Results -/

theorem onNumbers_eq_ok_iff (op : Arithmetic) (a b c : Fixed) :
    op.onNumbers a b = .ok c ↔ op.Exact a.raw b.raw c.raw := by
  rw [onNumbers_eq, exact_iff]
  by_cases undefined : op = .div ∧ b.raw = 0
  · simp [undefined]
  · rw [if_neg undefined]
    cases last : (op.stages a.raw b.raw).getLast? with
    | none => simp
    | some n =>
      rw [Option.bind_some]
      cases fitted : Fixed.ofRaw? n with
      | none =>
        have absent : n ≠ c.raw := by
          rintro rfl
          rw [Fixed.ofRaw?_eq_some_iff.2 rfl] at fitted
          cases fitted
        simp [absent]
      | some d =>
        obtain rfl := Fixed.ofRaw?_eq_some_iff.1 fitted
        constructor
        · rintro ⟨⟩
          exact ⟨undefined, rfl⟩
        · rintro ⟨-, same⟩
          rw [Option.some.injEq] at same
          rw [Fixed.ext_raw same]

/-- Without a count to give, an operation fails. -/
theorem onNumbers_eq_error (op : Arithmetic) (a b : Fixed)
    (none : ∀ c : Fixed, ¬op.Exact a.raw b.raw c.raw) :
    op.onNumbers a b = .error (.evaluation
      (if op = .div ∧ b.raw = 0 then .divisionByZero else .overflow op)) := by
  cases result : op.onNumbers a b with
  | ok c => exact absurd ((onNumbers_eq_ok_iff op a b c).1 result) (none c)
  | error error =>
    rw [onNumbers_eq] at result
    split at result
    · rename_i undefined
      rw [if_pos undefined]
      exact result.symm
    · rename_i defined
      rw [if_neg defined]
      split at result
      · cases result
      · exact result.symm

theorem apply_eq_ok_iff (op : Arithmetic) (a b : Fixed) (v : Value) :
    op.apply (.number a) (.number b) = .ok v ↔ ∃ c, op.onNumbers a b = .ok c ∧ v = .number c := by
  rw [apply]
  cases op.onNumbers a b <;> simp [Except.map, eq_comm]

end Arithmetic

namespace Fixed

/-- `p` has the sign of `a`, if it is not zero, and falls short of it by no more than the
hundredths that a division by `b` can leave over. -/
structure FallsShort (a b p : Fixed) : Prop where
  sign : p.raw = 0 ∨ p.raw.sign = a.raw.sign
  within : p.raw.natAbs ≤ a.raw.natAbs
  shortfall : a.raw.natAbs - p.raw.natAbs ≤ (b.raw.natAbs - 1) ⌈/⌉ 100

/-- A quotient times the divisor, both rounded toward zero, keeps the sign. -/
theorem sign_back (a b : Int) :
    let p := ((100 * a).tdiv b * b).tdiv 100
    p = 0 ∨ p.sign = a.sign := by
  intro p
  by_cases small : ((100 * a).tdiv b * b).natAbs < (100 : Int).natAbs
  · left
    rw [← Int.sign_eq_zero_iff_zero, Int.sign_tdiv, if_pos small]
  · right
    have whole : ¬(100 * a).natAbs < b.natAbs := by
      intro below
      have zero : (100 * a).tdiv b = 0 := by
        rw [← Int.sign_eq_zero_iff_zero, Int.sign_tdiv, if_pos below]
      simp [zero] at small
    have nonzero : b ≠ 0 := by
      rintro rfl
      simp at small
    have square : b.sign * b.sign = 1 := by
      rcases Int.lt_or_gt_of_ne nonzero with negative | positive
      · rw [Int.sign_eq_neg_one_of_neg negative]
        rfl
      · rw [Int.sign_eq_one_of_pos positive]
        rfl
    calc p.sign = ((100 * a).tdiv b * b).sign * (100 : Int).sign := by
          rw [Int.sign_tdiv, if_neg small]
      _ = (100 * a).sign * b.sign * b.sign := by
          rw [Int.sign_mul, Int.sign_tdiv, if_neg whole]
          exact Int.mul_one _
      _ = a.sign := by
          rw [Int.mul_assoc, square, Int.mul_one, Int.sign_mul]
          exact Int.one_mul _

theorem natAbs_back (a b : Int) :
    (((100 * a).tdiv b * b).tdiv 100).natAbs = 100 * a.natAbs / b.natAbs * b.natAbs / 100 := by
  rw [Int.natAbs_tdiv, Int.natAbs_mul, Int.natAbs_tdiv, Int.natAbs_mul]
  rfl

/-- Multiplying a quotient by the divisor succeeds and all but gives back the dividend. -/
theorem exists_fallsShort {a b q : Fixed} (divided : Arithmetic.onNumbers .div a b = .ok q) :
    ∃ p, Arithmetic.onNumbers .mul q b = .ok p ∧ FallsShort a b p := by
  obtain ⟨nonzero, truncates⟩ := (Arithmetic.onNumbers_eq_ok_iff _ a b q).1 divided
  have quotient : q.raw = (100 * a.raw).tdiv b.raw := (truncates_iff nonzero).1 truncates
  have size := natAbs_back a.raw b.raw
  have sign := sign_back a.raw b.raw
  have positive : 0 < b.raw.natAbs := Int.natAbs_pos.2 nonzero
  have left := Nat.div_add_mod (100 * a.raw.natAbs) b.raw.natAbs
  have leftSmall := Nat.mod_lt (100 * a.raw.natAbs) positive
  rw [← quotient] at size sign
  rw [Nat.mul_comm (100 * a.raw.natAbs / b.raw.natAbs)] at size
  generalize back : (q.raw * b.raw).tdiv 100 = p at size sign
  have lower := a.lower
  have upper := a.upper
  have within : p.natAbs ≤ a.raw.natAbs := by omega
  have fits : -2147483648 ≤ p ∧ p ≤ 2147483647 := by
    rcases sign with rfl | sign
    · omega
    · have := Int.sign_eq_one_iff_pos (a := p)
      have := Int.sign_eq_one_iff_pos (a := a.raw)
      omega
  refine ⟨⟨p, fits.1, fits.2⟩, ?_, sign, within, ?_⟩
  · rw [Arithmetic.onNumbers_eq_ok_iff]
    exact (truncates_iff (by decide)).2 back.symm
  · rw [Nat.ceilDiv_eq_add_pred_div]
    simp only
    omega

end Fixed

namespace Arithmetic

/-- Arithmetic is exact or fails. In 64-bit words nothing wraps around on the way; the result is
the exact one, rounded toward zero, whenever it fits, and otherwise there is an error and no value;
and to multiply a quotient by the divisor succeeds and all but gives back the dividend. -/
theorem exact_or_refused (a b : Fixed) :
    (∀ op : Arithmetic,
      (op.words (.ofInt a.raw) (.ofInt b.raw)).map Int64.toInt = op.stages a.raw b.raw ∧
      (∀ c : Int, op.Exact a.raw b.raw c → (op.stages a.raw b.raw).getLast? = some c) ∧
      (∀ v, op.apply (.number a) (.number b) = .ok v ↔
        ∃ c : Fixed, v = .number c ∧ op.Exact a.raw b.raw c.raw) ∧
      ((∀ c : Fixed, ¬op.Exact a.raw b.raw c.raw) →
        op.apply (.number a) (.number b) = .error (.evaluation
          (if op = .div ∧ b.raw = 0 then .divisionByZero else .overflow op)))) ∧
    ∀ q, Arithmetic.div.apply (.number a) (.number b) = .ok (.number q) →
      ∃ p, Arithmetic.mul.apply (.number q) (.number b) = .ok (.number p) ∧
        Fixed.FallsShort a b p := by
  refine ⟨fun op => ⟨map_toInt_words op a b, ?_, ?_, ?_⟩, ?_⟩
  · intro c exact
    exact ((exact_iff op a.raw b.raw c).1 exact).2
  · intro v
    simp only [apply_eq_ok_iff, onNumbers_eq_ok_iff, and_comm]
  · intro none
    rw [apply, onNumbers_eq_error op a b none]
    rfl
  · intro q divided
    obtain ⟨_, divided, ⟨⟩⟩ := (apply_eq_ok_iff _ a b _).1 divided
    obtain ⟨p, multiplied, short⟩ := Fixed.exists_fallsShort divided
    exact ⟨p, (apply_eq_ok_iff _ q b _).2 ⟨p, multiplied, rfl⟩, short⟩

/-- The least number has no negative, and seven hundredths do not divide by three. -/
theorem exact_or_refused_at_limits :
    let least : Fixed := ⟨-2147483648, by decide, by decide⟩
    let minusOne : Fixed := ⟨-100, by decide, by decide⟩
    let minusSeven : Fixed := ⟨-7, by decide, by decide⟩
    let three : Fixed := ⟨3, by decide, by decide⟩
    let quotient : Fixed := ⟨-233, by decide, by decide⟩
    ((∀ c : Fixed, ¬Arithmetic.div.Exact least.raw minusOne.raw c.raw) ∧
      Arithmetic.div.apply (.number least) (.number minusOne) =
        .error (.evaluation (.overflow .div))) ∧
    Arithmetic.div.apply (.number minusSeven) (.number three) = .ok (.number quotient) ∧
    ∃ p, Arithmetic.mul.apply (.number quotient) (.number three) = .ok (.number p) ∧
      Fixed.FallsShort minusSeven three p := by
  intro least minusOne minusSeven three quotient
  have none : ∀ c : Fixed, ¬Arithmetic.div.Exact least.raw minusOne.raw c.raw := by
    rintro c ⟨-, truncates⟩
    have result : c.raw = 2147483648 := (truncates_iff (by decide)).1 truncates
    have upper := c.upper
    omega
  have divided : Arithmetic.div.apply (.number minusSeven) (.number three) =
      .ok (.number quotient) := rfl
  exact ⟨⟨none, ((exact_or_refused least minusOne).1 .div).2.2.2 none⟩, divided,
    (exact_or_refused minusSeven three).2 quotient divided⟩

end Arithmetic

end SignalRules
