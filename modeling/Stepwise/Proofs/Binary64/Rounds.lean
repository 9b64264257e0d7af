import Stepwise.Binary64.Arithmetic
import Stepwise.Proofs.Binary64.Nearest
import Mathlib.Algebra.Order.Field.Basic
import Mathlib.Algebra.Order.Field.Rat
import Mathlib.Tactic.FieldSimp
import Mathlib.Tactic.Linarith
import Mathlib.Tactic.NormNum
import Mathlib.Tactic.Positivity
import Mathlib.Tactic.Ring

/-!
# Rounding a rational number

What a rational number is rounded to is told by values alone: no finite number is nearer to
it, one that is as near has another value only if the number chosen is even, and the number
is infinite from half a step beyond the largest finite one on.  Together with the sign,
which a zero also has, this leaves exactly one binary64 number (`Rounds.unique`).

Main statement: a ratio is rounded to that number, whatever its sign (`rounds_ofRatio`).
-/

namespace Stepwise.Binary64

/-! ## Values -/

/-- The number `q`, or its opposite if `negative`. -/
def signed (negative : Bool) (q : ℚ) : ℚ := if negative then -q else q

/-- The value of a finite number. -/
def value (x : Binary64) : ℚ := x.toInt / unitsInOne

/-- What is infinite begins half a step beyond the largest finite number, which is
`(2 ^ 53 - 1) * 2 ^ 971`. -/
def overflow : ℚ := (2 ^ 54 - 1) * 2 ^ 970

/-- The rational number `q` is rounded to `x`. -/
structure Rounds (q : ℚ) (x : Binary64) : Prop where
  isNaN : x.isNaN = false
  isInfinite_iff : x.isInfinite = true ↔ overflow ≤ |q|
  nearest : x.isFinite = true → ∀ y : Binary64, y.isFinite = true →
    |q - x.value| ≤ |q - y.value|
  even : x.isFinite = true → ∀ y : Binary64, y.isFinite = true →
    |q - y.value| = |q - x.value| → y.value = x.value ∨ x.magnitude % 2 = 0

variable {q r : ℚ} {x y : Binary64} {num den magnitude : Nat}

theorem abs_signed (negative : Bool) (q : ℚ) : |signed negative q| = |q| := by
  cases negative with
  | true => exact abs_neg q
  | false => rfl

theorem abs_signed_sub_signed (negative : Bool) (q r : ℚ) :
    |signed negative q - signed negative r| = |q - r| := by
  cases negative with
  | true =>
      show |-q - -r| = |q - r|
      rw [neg_sub_neg, abs_sub_comm]
  | false => rfl

theorem abs_signed_sub_signed_not (negative : Bool) (hq : 0 ≤ q) (hr : 0 ≤ r) :
    |signed negative q - signed (!negative) r| = q + r := by
  cases negative with
  | true =>
      show |-q - r| = q + r
      rw [← neg_add', abs_neg, abs_of_nonneg (add_nonneg hq hr)]
  | false =>
      show |q - -r| = q + r
      rw [sub_neg_eq_add, abs_of_nonneg (add_nonneg hq hr)]

/-- The value of a magnitude, as a rational number. -/
def magnitudeValue (magnitude : Nat) : ℚ := units magnitude / unitsInOne

theorem unitsInOne_cast_pos : (0 : ℚ) < unitsInOne := Nat.cast_pos.mpr unitsInOne_pos

theorem magnitudeValue_nonneg (magnitude : Nat) : 0 ≤ magnitudeValue magnitude :=
  div_nonneg (Nat.cast_nonneg _) unitsInOne_cast_pos.le

@[simp] theorem magnitudeValue_zero : magnitudeValue 0 = 0 := by
  simp [magnitudeValue, show units 0 = 0 from rfl]

theorem magnitudeValue_lt_magnitudeValue {magnitude' : Nat} (h : magnitude < magnitude') :
    magnitudeValue magnitude < magnitudeValue magnitude' :=
  div_lt_div_of_pos_right (Nat.cast_lt.mpr (units_lt_units h)) unitsInOne_cast_pos

theorem value_eq (x : Binary64) : x.value = signed x.negative (magnitudeValue x.magnitude) := by
  rw [value, toInt, size, signed, magnitudeValue]
  split
  · rw [Int.cast_neg, neg_div, Int.cast_natCast]
  · rw [Int.cast_natCast]

/-! ## Nearest among the magnitudes -/

theorem abs_sub_le_of_two_mul_le {v w : ℚ} (hvw : v < w) (h : 2 * q ≤ v + w) :
    |q - v| ≤ |q - w| ∧ (|q - w| = |q - v| → 2 * q = v + w) := by
  have hq : q < w := by linarith
  rw [abs_of_neg (sub_neg.mpr hq)]
  constructor
  · rw [abs_le]
    constructor <;> linarith
  · intro heq
    rcases abs_choice (q - v) with habs | habs
    · linarith
    · linarith

theorem abs_sub_le_of_le_two_mul {v w : ℚ} (hvw : w < v) (h : w + v ≤ 2 * q) :
    |q - v| ≤ |q - w| ∧ (|q - w| = |q - v| → w + v = 2 * q) := by
  have hq : w < q := by linarith
  rw [abs_of_pos (sub_pos.mpr hq)]
  constructor
  · rw [abs_le]
    constructor <;> linarith
  · intro heq
    rcases abs_choice (q - v) with habs | habs
    · linarith
    · linarith

/-- A ratio of units as a rational number. -/
def ratio (num den : Nat) : ℚ := num / (den * unitsInOne)

theorem ratio_nonneg (num den : Nat) : 0 ≤ ratio num den := by
  unfold ratio
  positivity

theorem two_mul_ratio_eq (num den : Nat) :
    2 * ratio num den = ((2 * num : Nat) : ℚ) / (den * unitsInOne) := by
  rw [ratio, Nat.cast_mul, mul_div_assoc]
  rfl

theorem magnitudeValue_add_eq (hden : 0 < den) (magnitude magnitude' : Nat) :
    magnitudeValue magnitude + magnitudeValue magnitude' =
      (((units magnitude + units magnitude') * den : Nat) : ℚ) / (den * unitsInOne) := by
  have hpos : (0 : ℚ) < den := Nat.cast_pos.mpr hden
  rw [magnitudeValue, magnitudeValue, ← add_div, Nat.cast_mul, Nat.cast_add,
    mul_comm (den : ℚ) (unitsInOne : ℚ), mul_div_mul_right _ _ hpos.ne']

theorem two_mul_ratio_le_iff (hden : 0 < den) {magnitude' : Nat} :
    2 * ratio num den ≤ magnitudeValue magnitude + magnitudeValue magnitude' ↔
      2 * num ≤ (units magnitude + units magnitude') * den := by
  have hstep : (0 : ℚ) < den * unitsInOne :=
    mul_pos (Nat.cast_pos.mpr hden) unitsInOne_cast_pos
  rw [two_mul_ratio_eq, magnitudeValue_add_eq hden, div_le_div_iff_of_pos_right hstep,
    Nat.cast_le]

theorem le_two_mul_ratio_iff (hden : 0 < den) {magnitude' : Nat} :
    magnitudeValue magnitude + magnitudeValue magnitude' ≤ 2 * ratio num den ↔
      (units magnitude + units magnitude') * den ≤ 2 * num := by
  have hstep : (0 : ℚ) < den * unitsInOne :=
    mul_pos (Nat.cast_pos.mpr hden) unitsInOne_cast_pos
  rw [two_mul_ratio_eq, magnitudeValue_add_eq hden, div_le_div_iff_of_pos_right hstep,
    Nat.cast_le]

/-- The magnitude that a ratio is rounded to is nearest to it, and even if another one is as
near. -/
theorem nearest_nearestMagnitude (hden : 0 < den) (num magnitude : Nat) :
    |ratio num den - magnitudeValue (nearestMagnitude num den)| ≤
        |ratio num den - magnitudeValue magnitude| ∧
      (|ratio num den - magnitudeValue magnitude| =
          |ratio num den - magnitudeValue (nearestMagnitude num den)| →
        magnitude = nearestMagnitude num den ∨ nearestMagnitude num den % 2 = 0) := by
  rcases Nat.lt_trichotomy (nearestMagnitude num den) magnitude with hlt | heq | hgt
  · have hmiddle := two_mul_le_of_nearestMagnitude_lt hden hlt
    have hle : 2 * num ≤ (units (nearestMagnitude num den) + units magnitude) * den := by omega
    obtain ⟨hnear, htie⟩ := abs_sub_le_of_two_mul_le (magnitudeValue_lt_magnitudeValue hlt)
      ((two_mul_ratio_le_iff hden).mpr hle)
    refine ⟨hnear, fun hequal => .inr ?_⟩
    have hunits := (le_two_mul_ratio_iff hden).mp (htie hequal).ge
    omega
  · rw [heq]
    exact ⟨le_refl _, fun _ => .inl rfl⟩
  · have hmiddle := le_two_mul_of_lt_nearestMagnitude hden hgt
    have hle : (units magnitude + units (nearestMagnitude num den)) * den ≤ 2 * num := by omega
    obtain ⟨hnear, htie⟩ := abs_sub_le_of_le_two_mul (magnitudeValue_lt_magnitudeValue hgt)
      ((le_two_mul_ratio_iff hden).mpr hle)
    refine ⟨hnear, fun hequal => .inr ?_⟩
    have hunits := (two_mul_ratio_le_iff hden).mp (htie hequal).ge
    omega

/-! ## Overflow -/

/-- `overflow` in units. -/
def overflowUnits : Nat := 0x3fffffffffffff <<< 2044

theorem cast_shiftLeft (n k : Nat) : ((n <<< k : Nat) : ℚ) = n * 2 ^ k := by
  rw [Nat.shiftLeft_eq, Nat.cast_mul, Nat.cast_pow, Nat.cast_ofNat]

theorem overflow_eq : overflow = (overflowUnits : ℚ) / unitsInOne := by
  have hpow : (2 : ℚ) ^ 2044 = 2 ^ 970 * 2 ^ 1074 := by rw [← pow_add]
  have hsignificand : ((0x3fffffffffffff : Nat) : ℚ) = 2 ^ 54 - 1 := by norm_num
  rw [eq_div_iff unitsInOne_cast_pos.ne', overflow, overflowUnits, unitsInOne, cast_shiftLeft,
    cast_shiftLeft, hpow, hsignificand, Nat.cast_one, one_mul, mul_assoc]

theorem two_mul_overflowUnits :
    2 * overflowUnits = units (infiniteMagnitude - 1) + units infiniteMagnitude := by
  decide +kernel

/-- A ratio is rounded to a magnitude that is not finite from `overflow` on.  In the middle
it is the odd largest finite magnitude that is passed over. -/
theorem infiniteMagnitude_le_iff (hden : 0 < den) :
    infiniteMagnitude ≤ nearestMagnitude num den ↔ overflowUnits * den ≤ num := by
  have hmiddle := congrArg (· * den) two_mul_overflowUnits
  simp only [Nat.add_mul, Nat.mul_assoc] at hmiddle
  have hodd : (infiniteMagnitude - 1) % 2 = 1 := by decide
  have hpos : 0 < infiniteMagnitude := by decide
  constructor
  · intro hle
    have hlast : infiniteMagnitude - 1 < nearestMagnitude num den := by omega
    have hbelow := le_two_mul_of_lt_nearestMagnitude hden hlast
    have hunits := Nat.mul_le_mul_right den (units_le_units hle)
    rw [Nat.add_mul] at hbelow
    omega
  · intro hle
    by_contra hlt
    have hlt := Nat.lt_of_not_le hlt
    have habove := two_mul_le_of_nearestMagnitude_lt hden hlt
    rw [Nat.add_mul] at habove
    rcases Nat.lt_or_eq_of_le (Nat.le_sub_one_of_lt hlt) with hbefore | hlast
    · have hunits := Nat.mul_lt_mul_of_pos_right (units_lt_units hbefore) hden
      omega
    · rw [hlast] at habove
      omega

theorem overflow_le_ratio_iff (hden : 0 < den) :
    overflow ≤ ratio num den ↔ overflowUnits * den ≤ num := by
  have hpos : (0 : ℚ) < den := Nat.cast_pos.mpr hden
  rw [overflow_eq, ratio, ← mul_div_mul_right _ _ hpos.ne', mul_comm (unitsInOne : ℚ) den,
    div_le_div_iff_of_pos_right (mul_pos hpos unitsInOne_cast_pos), ← Nat.cast_mul, Nat.cast_le]

/-! ## Rounding a ratio -/

theorem magnitude_ofRatio (negative : Bool) (num den : Nat) :
    (ofRatio negative num den).magnitude = min (nearestMagnitude num den) infiniteMagnitude := rfl

theorem isInfinite_ofRatio_iff (negative : Bool) :
    (ofRatio negative num den).isInfinite = true ↔
      infiniteMagnitude ≤ nearestMagnitude num den := by
  rw [isInfinite, decide_eq_true_iff, magnitude_ofRatio, min_eq_right_iff]

theorem magnitude_ofRatio_of_isFinite {negative : Bool}
    (h : (ofRatio negative num den).isFinite = true) :
    (ofRatio negative num den).magnitude = nearestMagnitude num den := by
  have hlt := of_decide_eq_true h
  rw [magnitude_ofRatio] at hlt ⊢
  omega

theorem nearest_ofRatio {negative : Bool} (hden : 0 < den)
    (hfinite : (ofRatio negative num den).isFinite = true) (y : Binary64) :
    |signed negative (ratio num den) - (ofRatio negative num den).value| ≤
        |signed negative (ratio num den) - y.value| ∧
      (|signed negative (ratio num den) - y.value| =
          |signed negative (ratio num den) - (ofRatio negative num den).value| →
        y.value = (ofRatio negative num den).value ∨
          (ofRatio negative num den).magnitude % 2 = 0) := by
  have hratio := ratio_nonneg num den
  rw [value_eq, value_eq, negative_ofRatio, magnitude_ofRatio_of_isFinite hfinite,
    abs_signed_sub_signed]
  by_cases hsign : y.negative = negative
  · obtain ⟨hnear, heven⟩ := nearest_nearestMagnitude hden num y.magnitude
    rw [hsign, abs_signed_sub_signed]
    refine ⟨hnear, ?_⟩
    intro heq
    rcases heven heq with hsame | heven
    · exact .inl (by rw [hsame])
    · exact .inr heven
  · -- zero lies between, and is no nearer than the number chosen
    obtain ⟨hnear, heven⟩ := nearest_nearestMagnitude hden num 0
    have hnot : y.negative = !negative := Bool.eq_not_of_ne hsign
    have hvalue := magnitudeValue_nonneg y.magnitude
    rw [hnot, abs_signed_sub_signed_not negative hratio hvalue]
    rw [magnitudeValue_zero, sub_zero, abs_of_nonneg hratio] at hnear heven
    refine ⟨by linarith, ?_⟩
    intro heq
    have hzero : magnitudeValue y.magnitude = 0 := by linarith
    rcases heven (by linarith) with hsame | heven
    · rw [hzero, ← hsame, magnitudeValue_zero]
      exact .inl (by cases negative <;> simp [signed])
    · exact .inr heven

/-- A ratio with a sign is rounded once: to the nearest number, of two to the even one, and
from `overflow` on to infinity. -/
theorem rounds_ofRatio (negative : Bool) (num : Nat) (hden : 0 < den) :
    Rounds (signed negative (ratio num den)) (ofRatio negative num den) where
  isNaN := decide_eq_false (Nat.not_lt.mpr (Nat.min_le_right ..))
  isInfinite_iff := by
    rw [isInfinite_ofRatio_iff, infiniteMagnitude_le_iff hden, abs_signed,
      abs_of_nonneg (ratio_nonneg num den), overflow_le_ratio_iff hden]
  nearest := fun hfinite y _ => (nearest_ofRatio hden hfinite y).1
  even := fun hfinite y _ => (nearest_ofRatio hden hfinite y).2

/-! ## Only one number -/

theorem abs_sub_lt_of_between {v w z : ℚ} (hvz : v < z) (hzw : z < w) (h : |q - v| = |q - w|) :
    |q - z| < |q - v| := by
  rcases abs_eq_abs.mp h with heq | heq
  · linarith
  · have hmiddle : 2 * q = v + w := by linarith
    rw [abs_of_pos (by linarith : 0 < q - v), abs_lt]
    constructor <;> linarith

theorem signed_signed (negative : Bool) (q : ℚ) : signed negative (signed negative q) = q := by
  cases negative with
  | true => exact neg_neg q
  | false => rfl

theorem abs_sub_value (q : ℚ) (x : Binary64) :
    |q - x.value| = |signed x.negative q - magnitudeValue x.magnitude| := by
  rw [value_eq, ← abs_signed_sub_signed x.negative (signed x.negative q), signed_signed]

/-- Of two numbers with the same sign that are both nearest and even, the one before the
other would have a number between them that is nearer. -/
theorem Rounds.not_lt (hx : Rounds q x) (hy : Rounds q y) (hsign : y.negative = x.negative)
    (hxfinite : x.isFinite = true) (hyfinite : y.isFinite = true) :
    ¬x.magnitude < y.magnitude := by
  intro hlt
  have hequal : |q - x.value| = |q - y.value| :=
    le_antisymm (hx.nearest hxfinite y hyfinite) (hy.nearest hyfinite x hxfinite)
  have hvalue : magnitudeValue x.magnitude < magnitudeValue y.magnitude :=
    magnitudeValue_lt_magnitudeValue hlt
  have hne : y.value ≠ x.value := by
    intro heq
    rw [value_eq, value_eq, hsign] at heq
    have heq := congrArg (signed x.negative) heq
    rw [signed_signed, signed_signed] at heq
    exact hvalue.ne' heq
  have hxeven := (hx.even hxfinite y hyfinite hequal.symm).resolve_left hne
  have hyeven := (hy.even hyfinite x hxfinite hequal).resolve_left hne.symm
  have hbetween : x.magnitude + 1 < y.magnitude := by omega
  have hylt := of_decide_eq_true hyfinite
  let z : Binary64 := ⟨x.negative, x.magnitude + 1, Nat.lt_trans hbetween y.magnitude_lt⟩
  have hzfinite : z.isFinite = true := decide_eq_true (Nat.lt_trans hbetween hylt)
  have hnear := hx.nearest hxfinite z hzfinite
  rw [abs_sub_value, abs_sub_value] at hequal hnear
  rw [hsign] at hequal
  exact absurd hnear (not_le_of_gt (abs_sub_lt_of_between
    (magnitudeValue_lt_magnitudeValue (Nat.lt_succ_self _))
    (magnitudeValue_lt_magnitudeValue hbetween) hequal))

theorem isFinite_of_isInfinite_eq_false (hnan : x.isNaN = false) (h : x.isInfinite = false) :
    x.isFinite = true := by
  have hle := of_decide_eq_false hnan
  have hne := of_decide_eq_false h
  exact decide_eq_true (by omega)

theorem Rounds.unique (hx : Rounds q x) (hy : Rounds q y) (hsign : x.negative = y.negative) :
    x = y := by
  refine eq_of_magnitude_eq hsign ?_
  by_cases hover : overflow ≤ |q|
  · have hxinfinite := of_decide_eq_true (hx.isInfinite_iff.mpr hover)
    have hyinfinite := of_decide_eq_true (hy.isInfinite_iff.mpr hover)
    rw [hxinfinite, hyinfinite]
  · have hxfinite := isFinite_of_isInfinite_eq_false hx.isNaN
      (Bool.eq_false_iff.mpr (mt hx.isInfinite_iff.mp hover))
    have hyfinite := isFinite_of_isInfinite_eq_false hy.isNaN
      (Bool.eq_false_iff.mpr (mt hy.isInfinite_iff.mp hover))
    have hxy := hx.not_lt hy hsign.symm hxfinite hyfinite
    have hyx := hy.not_lt hx hsign hyfinite hxfinite
    omega

end Stepwise.Binary64
