import Stepwise.Binary64.Arithmetic
import Stepwise.Proofs.Binary64.Units
import Mathlib.Data.Nat.Log

/-!
# Exact numbers

The natural numbers up to 2 ^ 53 are binary64 numbers.  A quotient of exact numbers
is rounded once, from its exact value: a common factor of both sides does not show
in it (`ofRatio_mul_mul`), so it is the number nearest to the ratio.

Rounding does not carry a value beyond a number that it does not exceed
(`nearestMagnitude_le`), so a finite number divided by one or more stays finite.
-/

namespace Stepwise

/-! ## Rounding a quotient -/

theorem roundDiv_mul_mul (tie : Tie) (num den : Nat) {c : Nat} (hc : 0 < c) :
    roundDiv tie (num * c) (den * c) = roundDiv tie num den := by
  have htwice : 2 * (num * c % (den * c)) = 2 * (num % den) * c := by
    rw [Nat.mul_mod_mul_right, Nat.mul_assoc]
  have hlt : den * c < 2 * (num % den) * c ↔ den < 2 * (num % den) := Nat.mul_lt_mul_right hc
  have heq : 2 * (num % den) * c = den * c ↔ 2 * (num % den) = den :=
    Nat.mul_left_inj (Nat.ne_of_gt hc)
  have hbeq : (2 * (num % den) * c == den * c) = (2 * (num % den) == den) := by
    rw [Bool.eq_iff_iff, beq_iff_eq, beq_iff_eq, heq]
  simp only [roundDiv, Nat.mul_div_mul_right _ _ hc, htwice, hlt, hbeq]

theorem roundDiv_le (tie : Tie) {num den n : Nat} (hden : 0 < den) (h : num ≤ n * den) :
    roundDiv tie num den ≤ n := by
  have hdiv : num / den ≤ n := Nat.div_le_of_le_mul (by rwa [Nat.mul_comm])
  rcases Nat.lt_or_eq_of_le hdiv with hlt | heq
  · rcases roundDiv_eq_or tie num den with hround | hround <;> omega
  · have hnum : num = n * den := Nat.le_antisymm h (heq ▸ Nat.div_mul_le_self num den)
    rw [hnum, roundDiv_mul tie n hden]

theorem le_roundDiv (tie : Tie) {num den n : Nat} (hden : 0 < den) (h : n * den ≤ num) :
    n ≤ roundDiv tie num den := by
  have hdiv : n ≤ num / den := (Nat.le_div_iff_mul_le hden).mpr h
  rcases roundDiv_eq_or tie num den with hround | hround <;> omega

namespace Binary64

variable {num den magnitude : Nat} {x y : Binary64}

/-! ## Rounding a ratio -/

theorem ofRatio_mul_mul (negative : Bool) (num den : Nat) {c : Nat} (hc : 0 < c) :
    ofRatio negative (num * c) (den * c) = ofRatio negative num den := by
  have hstep : ∀ k, (den * c) <<< k = den <<< k * c := by
    intro k
    rw [Nat.shiftLeft_eq, Nat.shiftLeft_eq, Nat.mul_right_comm]
  simp only [ofRatio, nearestMagnitude, excessBits, Nat.mul_div_mul_right _ _ hc, hstep,
    roundDiv_mul_mul _ _ _ hc]

theorem lt_two_mul_binadeSize (hden : 0 < den) :
    num < 2 * binadeSize * den <<< excessBits num den := by
  have hlog : (num / den).log2 + 1 ≤ fractionBits + 1 + excessBits num den := by
    rw [excessBits]
    omega
  have hlt : num / den < 2 ^ (fractionBits + 1 + excessBits num den) :=
    Nat.lt_of_lt_of_le Nat.lt_log2_self (Nat.pow_le_pow_right (by decide) hlog)
  calc num < 2 ^ (fractionBits + 1 + excessBits num den) * den :=
        (Nat.div_lt_iff_lt_mul hden).mp hlt
    _ = 2 * binadeSize * den <<< excessBits num den := by
        rw [Nat.shiftLeft_eq, Nat.pow_add, Nat.mul_assoc, Nat.mul_comm den]
        rfl

theorem binadeSize_mul_le (hden : 0 < den) (h : 0 < excessBits num den) :
    binadeSize * den <<< excessBits num den ≤ num := by
  have hne : num / den ≠ 0 := by
    intro hzero
    rw [excessBits, hzero] at h
    exact absurd h (by decide)
  have hlog : fractionBits + excessBits num den ≤ (num / den).log2 := by
    rw [excessBits] at h ⊢
    omega
  calc binadeSize * den <<< excessBits num den
      = 2 ^ (fractionBits + excessBits num den) * den := by
        rw [Nat.shiftLeft_eq, Nat.pow_add, Nat.mul_assoc, Nat.mul_comm den]
        rfl
    _ ≤ num := (Nat.le_div_iff_mul_le hden).mp ((Nat.le_log2 hne).mp hlog)

/-- The significand of a rounded ratio is at most the first of the next binade. -/
theorem roundDiv_excessBits_le (hden : 0 < den) :
    roundDiv .toEven num (den <<< excessBits num den) ≤ 2 * binadeSize :=
  roundDiv_le .toEven (Nat.shiftLeft_pos_iff.mpr hden) (Nat.le_of_lt (lt_two_mul_binadeSize hden))

theorem le_roundDiv_excessBits (hden : 0 < den) (h : 0 < excessBits num den) :
    binadeSize ≤ roundDiv .toEven num (den <<< excessBits num den) :=
  le_roundDiv .toEven (Nat.shiftLeft_pos_iff.mpr hden) (binadeSize_mul_le hden h)

theorem excessBits_le_excessBits {num' den' : Nat} (h : num / den ≤ num' / den') :
    excessBits num den ≤ excessBits num' den' := by
  rw [excessBits, excessBits, Nat.log2_eq_log_two, Nat.log2_eq_log_two]
  exact Nat.sub_le_sub_right (Nat.log_mono_right h) _

theorem excessBits_units (magnitude : Nat) : excessBits (units magnitude) 1 = binade magnitude := by
  rw [excessBits, Nat.div_one, log2_units_sub]

theorem nearestMagnitude_le (hden : 0 < den) (h : num ≤ units magnitude * den) :
    nearestMagnitude num den ≤ magnitude := by
  have hle : excessBits num den ≤ binade magnitude := by
    rw [← excessBits_units]
    refine excessBits_le_excessBits ?_
    rw [Nat.div_one]
    exact Nat.div_le_of_le_mul (by rwa [Nat.mul_comm])
  have hsplit := binade_mul_add_significand magnitude
  simp only [nearestMagnitude]
  rcases Nat.lt_or_eq_of_le hle with hlt | heq
  · -- the next binade begins no later than the significand of the number
    have hround := @roundDiv_excessBits_le num den hden
    have hfull := le_significand (Nat.zero_lt_of_lt hlt)
    have hstep := Nat.mul_le_mul_right binadeSize (Nat.succ_le_of_lt hlt)
    rw [Nat.succ_mul] at hstep
    omega
  · have hround : roundDiv .toEven num (den <<< binade magnitude) ≤ significand magnitude := by
      refine roundDiv_le .toEven (Nat.shiftLeft_pos_iff.mpr hden) ?_
      rwa [Nat.shiftLeft_eq, ← Nat.mul_assoc, Nat.mul_right_comm, ← Nat.shiftLeft_eq, ← units_eq]
    rw [heq]
    omega

/-- Rounding does not go below a number that the ratio reaches. -/
theorem le_nearestMagnitude_of_le (hden : 0 < den) (h : units magnitude * den ≤ num) :
    magnitude ≤ nearestMagnitude num den := by
  have hle : binade magnitude ≤ excessBits num den := by
    rw [← excessBits_units]
    refine excessBits_le_excessBits ?_
    rw [Nat.div_one]
    exact (Nat.le_div_iff_mul_le hden).mpr h
  have hsplit := binade_mul_add_significand magnitude
  simp only [nearestMagnitude]
  rcases Nat.lt_or_eq_of_le hle with hlt | heq
  · have hround := le_roundDiv_excessBits hden (Nat.zero_lt_of_lt hlt)
    have hlength := significand_lt magnitude
    have hstep := Nat.mul_le_mul_right binadeSize (Nat.succ_le_of_lt hlt)
    rw [Nat.succ_mul] at hstep
    omega
  · have hround : significand magnitude ≤ roundDiv .toEven num (den <<< binade magnitude) := by
      refine le_roundDiv .toEven (Nat.shiftLeft_pos_iff.mpr hden) ?_
      rwa [Nat.shiftLeft_eq, ← Nat.mul_assoc, Nat.mul_right_comm, ← Nat.shiftLeft_eq, ← units_eq]
    rw [← heq]
    omega

theorem units_le_units {magnitude' : Nat} (h : magnitude ≤ magnitude') :
    units magnitude ≤ units magnitude' := by
  by_contra hlt
  have hle : nearestMagnitude (units magnitude' * 1) 1 ≤ magnitude :=
    nearestMagnitude_le Nat.one_pos (Nat.mul_le_mul_right 1 (Nat.le_of_not_le hlt))
  rw [nearestMagnitude_units magnitude' Nat.one_pos] at hle
  exact hlt (Nat.le_of_eq (congrArg units (Nat.le_antisymm h hle)))

/-! ## Finite numbers -/

theorem isFinite_ofRatio (negative : Bool) (hden : 0 < den) (h : num ≤ units magnitude * den)
    (hfinite : magnitude < infiniteMagnitude) : (ofRatio negative num den).isFinite = true := by
  have hle := nearestMagnitude_le hden h
  have hmin : (ofRatio negative num den).magnitude ≤ nearestMagnitude num den := Nat.min_le_left ..
  exact decide_eq_true (by omega)

theorem le_size_ofRatio (negative : Bool) (hden : 0 < den) (h : units magnitude * den ≤ num)
    (hle : magnitude ≤ infiniteMagnitude) : units magnitude ≤ (ofRatio negative num den).size :=
  units_le_units (Nat.le_min.mpr ⟨le_nearestMagnitude_of_le hden h, hle⟩)

theorem isFinite_ofRatio_iff {negative : Bool} :
    (ofRatio negative num den).isFinite = true ↔ (ofRatio negative num den).isInfinite = false := by
  have hle : (ofRatio negative num den).magnitude ≤ infiniteMagnitude := Nat.min_le_right ..
  rw [isFinite, isInfinite, decide_eq_true_iff, decide_eq_false_iff_not]
  omega

/-! ## Exact operations -/

theorem unitsInOne_pos : 0 < unitsInOne := by decide +kernel

theorem units_one : units (1023 * binadeSize) = unitsInOne := by decide +kernel

theorem negative_ofRatio (negative : Bool) (num den : Nat) :
    (ofRatio negative num den).negative = negative := rfl

theorem ofRatio_with_negative (negative : Bool) (num den : Nat) :
    { ofRatio false num den with negative := negative } = ofRatio negative num den := rfl

theorem mul_eq_ofRatio (hx : x.isFinite = true) (hy : y.isFinite = true) :
    x.mul y = ofRatio (x.negative != y.negative) (x.size * y.size) unitsInOne := by
  simp only [mul, isNaN_eq_false_of_isFinite hx, isNaN_eq_false_of_isFinite hy,
    isInfinite_eq_false_of_isFinite hx, isInfinite_eq_false_of_isFinite hy, Bool.or_self,
    Bool.false_eq_true, if_false]

theorem mul_of_size_eq (hx : x.isFinite = true) (hy : y.isFinite = true)
    (hone : y.size = unitsInOne) (hpositive : y.negative = false) : x.mul y = x := by
  have hmul : x.mul y = ofRatio x.negative (x.size * unitsInOne) unitsInOne := by
    rw [mul_eq_ofRatio hx hy, hone, hpositive, Bool.bne_false]
  have hle : x.magnitude ≤ infiniteMagnitude := Nat.le_of_lt (of_decide_eq_true hx)
  refine eq_of_magnitude_eq ?_ ?_
  · rw [hmul, negative_ofRatio]
  · rw [hmul, size, magnitude_ofRatio_units hle _ unitsInOne_pos]

theorem div_eq_ofRatio (hx : x.isFinite = true) (hy : y.isFinite = true) (hpos : 0 < y.size) :
    x.div y = ofRatio (x.negative != y.negative) (x.size * unitsInOne) y.size := by
  have hzero : y.isZero = false := by
    refine decide_eq_false fun hzero => ?_
    rw [size, hzero] at hpos
    exact absurd hpos (by decide)
  simp only [div, isNaN_eq_false_of_isFinite hx, isNaN_eq_false_of_isFinite hy,
    isInfinite_eq_false_of_isFinite hx, isInfinite_eq_false_of_isFinite hy, hzero,
    Bool.or_self, Bool.false_eq_true, if_false]

/-- The quotient of two whole numbers is the number nearest to their ratio. -/
theorem div_of_size_eq {m n : Nat} (hx : x.isFinite = true) (hy : y.isFinite = true)
    (hm : x.size = m * unitsInOne) (hn : y.size = n * unitsInOne) (hpos : 0 < n) :
    x.div y = ofRatio (x.negative != y.negative) (m * unitsInOne) n := by
  have hsize : 0 < y.size := hn ▸ Nat.mul_pos hpos unitsInOne_pos
  rw [div_eq_ofRatio hx hy hsize, hm, hn, ofRatio_mul_mul _ _ _ unitsInOne_pos]

theorem isFinite_div (hx : x.isFinite = true) (hy : y.isFinite = true)
    (hone : unitsInOne ≤ y.size) : (x.div y).isFinite = true := by
  have hpos : 0 < y.size := Nat.lt_of_lt_of_le unitsInOne_pos hone
  rw [div_eq_ofRatio hx hy hpos]
  exact isFinite_ofRatio _ hpos (Nat.mul_le_mul_left _ hone) (of_decide_eq_true hx)

/-! ## Natural numbers -/

theorem units_binade_add {k significand : Nat} (hle : binadeSize ≤ significand)
    (hlt : significand < 2 * binadeSize) :
    units (k * binadeSize + significand) = significand <<< k := by
  have hbinade : binade (k * binadeSize + significand) = k := by
    simp only [binade, binadeSize] at *
    omega
  rw [units_eq, hbinade, Binary64.significand, hbinade, Nat.add_sub_cancel_left]

/-- The last of the natural numbers without a gap between them, 2 ^ 53. -/
def exactLimit : Nat := 0x20000000000000

theorem shiftLeft_eq_mul (n k : Nat) : n <<< k = n * 1 <<< k := by
  rw [Nat.shiftLeft_eq, Nat.one_shiftLeft]

/-- The natural numbers up to `exactLimit` are binary64 numbers: shifted up to its full
length, such a number is a significand. -/
theorem exists_units_eq {n : Nat} (h : n ≤ exactLimit) :
    ∃ magnitude < infiniteMagnitude, units magnitude = n * unitsInOne := by
  rcases Nat.eq_zero_or_pos n with rfl | hpos
  · exact ⟨0, by decide, by rw [Nat.zero_mul]; rfl⟩
  rcases Nat.lt_or_eq_of_le h with hlt | rfl
  · have hne : n ≠ 0 := Nat.ne_of_gt hpos
    have hlog : n.log2 < 53 := (Nat.log2_lt hne).mpr hlt
    let shift := 52 - n.log2
    have hfull : binadeSize ≤ n <<< shift := by
      calc binadeSize = 2 ^ n.log2 * 2 ^ shift := by
            rw [← Nat.pow_add, Nat.add_sub_cancel' (Nat.le_of_lt_succ hlog)]
            rfl
        _ ≤ n * 2 ^ shift := Nat.mul_le_mul_right _ (Nat.log2_self_le hne)
        _ = n <<< shift := (Nat.shiftLeft_eq ..).symm
    have hlength : n <<< shift < 2 * binadeSize := by
      calc n <<< shift = n * 2 ^ shift := Nat.shiftLeft_eq ..
        _ < 2 ^ (n.log2 + 1) * 2 ^ shift :=
          Nat.mul_lt_mul_of_pos_right Nat.lt_log2_self (Nat.two_pow_pos _)
        _ = 2 * binadeSize := by
          rw [← Nat.pow_add, Nat.add_right_comm, Nat.add_sub_cancel' (Nat.le_of_lt_succ hlog)]
          rfl
    refine ⟨(1074 - shift) * binadeSize + n <<< shift, ?_, ?_⟩
    · simp only [binadeSize, infiniteMagnitude] at hlength ⊢
      omega
    · rw [units_binade_add hfull hlength, ← Nat.shiftLeft_add,
        Nat.add_sub_cancel' (by omega : shift ≤ 1074), shiftLeft_eq_mul, unitsInOne]
  · -- the limit itself has one bit more, and begins the next binade
    exact ⟨1076 * binadeSize, by decide, by decide +kernel⟩

theorem size_ofNat {n : Nat} (h : n ≤ exactLimit) : (ofNat n).size = n * unitsInOne := by
  obtain ⟨magnitude, hlt, hunits⟩ := exists_units_eq h
  have hmagnitude := magnitude_ofRatio_units (Nat.le_of_lt hlt) false Nat.one_pos
  rw [Nat.mul_one, hunits] at hmagnitude
  rw [size, ofNat, hmagnitude, hunits]

end Binary64
end Stepwise
