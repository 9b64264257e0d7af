import Stepwise.Binary64.Rounding

/-!
# The units of a magnitude

From one magnitude to the next the value goes up by a step, and the step doubles
every 2 ^ 52 magnitudes, from the second binade of normal numbers on.  So a
magnitude is taken apart as the doublings before it, its *binade*, and the number
of steps that make up its value, its *significand*; the subnormals need no case
of their own.

Main statement: rounding the value of a magnitude gives the magnitude, up to
that of infinity, and rounding anything far beyond gives infinity.
-/

namespace Stepwise

/-! ## Rounding a quotient -/

theorem roundDiv_mul (tie : Tie) (n : Nat) {den : Nat} (hden : 0 < den) :
    roundDiv tie (n * den) den = n := by
  have hzero : 0 ≠ den := Nat.ne_of_lt hden
  simp [roundDiv, Nat.mul_div_cancel n hden, hzero]

theorem roundDiv_eq_or (tie : Tie) (num den : Nat) :
    roundDiv tie num den = num / den ∨ roundDiv tie num den = num / den + 1 := by
  rw [roundDiv]
  split
  · exact .inr rfl
  · exact .inl rfl

namespace Binary64

/-! ## Binades -/

/-- How often the step between neighbours has doubled up to a magnitude. -/
def binade (magnitude : Nat) : Nat := magnitude / binadeSize - 1

/-- The value of a magnitude in steps of its binade. -/
def significand (magnitude : Nat) : Nat := magnitude - binade magnitude * binadeSize

variable (magnitude : Nat)

theorem binade_mul_add_significand :
    binade magnitude * binadeSize + significand magnitude = magnitude := by
  simp only [binade, significand, binadeSize]
  omega

theorem significand_lt : significand magnitude < 2 * binadeSize := by
  simp only [binade, significand, binadeSize]
  omega

theorem le_significand {magnitude : Nat} (h : 0 < binade magnitude) :
    binadeSize ≤ significand magnitude := by
  simp only [binade, significand, binadeSize] at h ⊢
  omega

theorem units_eq : units magnitude = significand magnitude <<< binade magnitude := by
  rw [units]
  split
  · next hlt =>
    have hbinade : binade magnitude = 0 := by
      rw [binade, Nat.div_eq_of_lt hlt]
    rw [significand, hbinade, Nat.zero_mul, Nat.sub_zero, Nat.shiftLeft_zero]
  · next hle =>
    have hsignificand : significand magnitude = binadeSize + magnitude % binadeSize := by
      simp only [binade, significand, binadeSize] at hle ⊢
      omega
    rw [hsignificand]
    rfl

theorem units_ne_zero {magnitude : Nat} (h : magnitude ≠ 0) : units magnitude ≠ 0 := by
  have hsignificand : significand magnitude ≠ 0 := by
    simp only [binade, significand, binadeSize]
    omega
  rw [units_eq, Nat.shiftLeft_eq]
  exact Nat.mul_ne_zero hsignificand (Nat.ne_of_gt (Nat.two_pow_pos _))

/-- The bits of a value that lie below the last of its significand are those of
its binade. -/
theorem log2_units_sub : (units magnitude).log2 - fractionBits = binade magnitude := by
  have hlt : units magnitude < 2 ^ (fractionBits + 1 + binade magnitude) := by
    rw [units_eq, Nat.shiftLeft_eq, Nat.pow_add]
    exact Nat.mul_lt_mul_of_pos_right (significand_lt magnitude) (Nat.two_pow_pos _)
  rcases Nat.eq_zero_or_pos (binade magnitude) with hzero | hpos
  · rw [hzero] at hlt ⊢
    by_cases hunits : units magnitude = 0
    · rw [hunits]
      rfl
    · have := (Nat.log2_lt hunits).mpr hlt
      omega
  · have hle : 2 ^ (fractionBits + binade magnitude) ≤ units magnitude := by
      rw [units_eq, Nat.shiftLeft_eq, Nat.pow_add]
      exact Nat.mul_le_mul_right _ (le_significand hpos)
    have hunits : units magnitude ≠ 0 := by
      have := Nat.two_pow_pos (fractionBits + binade magnitude)
      omega
    have hlog : (units magnitude).log2 = fractionBits + binade magnitude :=
      (Nat.log2_eq_iff hunits).mpr ⟨hle, by rwa [Nat.add_right_comm] at hlt⟩
    omega

/-! ## Rounding a value -/

/-- The value of a magnitude, as a ratio over any denominator, is nearest to that
magnitude. -/
theorem nearestMagnitude_units {den : Nat} (hden : 0 < den) :
    nearestMagnitude (units magnitude * den) den = magnitude := by
  have hexcess : excessBits (units magnitude * den) den = binade magnitude := by
    rw [excessBits, Nat.mul_div_cancel _ hden, log2_units_sub]
  have hratio : units magnitude * den =
      significand magnitude * (den <<< binade magnitude) := by
    rw [units_eq, Nat.shiftLeft_eq, Nat.shiftLeft_eq, Nat.mul_right_comm, Nat.mul_assoc]
  have hstep : 0 < den <<< binade magnitude := Nat.shiftLeft_pos_iff.mpr hden
  simp only [nearestMagnitude, hexcess]
  rw [hratio, roundDiv_mul _ _ hstep, binade_mul_add_significand]

/-- The value of a finite number is rounded to that number. -/
theorem magnitude_ofRatio_units {magnitude : Nat} (h : magnitude ≤ infiniteMagnitude)
    (negative : Bool) {den : Nat} (hden : 0 < den) :
    (ofRatio negative (units magnitude * den) den).magnitude = magnitude := by
  show min (nearestMagnitude (units magnitude * den) den) infiniteMagnitude = magnitude
  rw [nearestMagnitude_units magnitude hden, Nat.min_eq_left h]

/-! ## Numbers and their magnitudes -/

section Numbers

variable {x y : Binary64}

theorem eq_of_magnitude_eq (hnegative : x.negative = y.negative)
    (hmagnitude : x.magnitude = y.magnitude) : x = y := by
  obtain ⟨negative, magnitude, hlt⟩ := x
  obtain ⟨negative', magnitude', hlt'⟩ := y
  cases hnegative
  cases hmagnitude
  rfl

theorem isNaN_eq_false_of_isFinite (h : x.isFinite = true) : x.isNaN = false :=
  decide_eq_false (Nat.lt_asymm (of_decide_eq_true h))

theorem isInfinite_eq_false_of_isFinite (h : x.isFinite = true) : x.isInfinite = false :=
  decide_eq_false (Nat.ne_of_lt (of_decide_eq_true h))

end Numbers

/-! ## Below and beyond the finite values -/

theorem saturate_of_le {magnitude : Nat} (h : infiniteMagnitude ≤ magnitude) (negative : Bool) :
    saturate negative magnitude = infinity negative := by
  simp only [saturate, infinity, Nat.min_eq_right h]

theorem nearestMagnitude_of_lt {num den : Nat} (h : 2 * num < den) :
    nearestMagnitude num den = 0 := by
  have hlt : num < den := by omega
  have hdiv : num / den = 0 := Nat.div_eq_of_lt hlt
  have hexcess : excessBits num den = 0 := by
    rw [excessBits, hdiv]
    rfl
  have hround : roundDiv .toEven num den = 0 := by
    have hbeq : (2 * num == den) = false := beq_eq_false_iff_ne.mpr (Nat.ne_of_lt h)
    simp [roundDiv, hdiv, Nat.mod_eq_of_lt hlt, hbeq, Nat.lt_asymm h]
  simp only [nearestMagnitude, hexcess]
  rw [Nat.zero_mul, Nat.shiftLeft_zero, hround]

theorem le_nearestMagnitude {num den k : Nat} (h : 1 <<< (k + fractionBits) ≤ num / den) :
    k * binadeSize ≤ nearestMagnitude num den := by
  rw [Nat.one_shiftLeft] at h
  have hne : num / den ≠ 0 := Nat.ne_of_gt (Nat.lt_of_lt_of_le (Nat.two_pow_pos _) h)
  have hexcess : k ≤ excessBits num den := by
    have hlog := (Nat.le_log2 hne).mpr h
    rw [excessBits]
    omega
  calc k * binadeSize ≤ excessBits num den * binadeSize := Nat.mul_le_mul_right _ hexcess
    _ ≤ nearestMagnitude num den := Nat.le_add_right ..

theorem ofRatio_of_le {num den : Nat} (h : 1 <<< (2047 + fractionBits) ≤ num / den)
    (negative : Bool) : ofRatio negative num den = infinity negative :=
  saturate_of_le (le_nearestMagnitude h) negative

end Binary64
end Stepwise
