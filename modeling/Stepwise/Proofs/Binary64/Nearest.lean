import Stepwise.Proofs.Binary64.Exact

/-!
# The nearest magnitude

Of all magnitudes, the one that a ratio is rounded to is nearest to it.  This is said in
the natural numbers, of the middle between two values: the ratio does not lie above the
middle between what it is rounded to and anything greater
(`two_mul_le_of_nearestMagnitude_lt`), nor below the middle between that and anything less
(`le_two_mul_of_lt_nearestMagnitude`), and where it lies in the middle the magnitude is
even.

Rounding only looks at the two multiples of a step beside the ratio.  They are neighbours
among all magnitudes, also where one of them begins the next binade, so everything else is
beyond the one or the other.
-/

namespace Stepwise.Binary64

variable {num den magnitude magnitude' : Nat}

/-! ## Neighbours -/

/-- The value of a magnitude that is told by its binade and significand.  The first
significand that is too long for a binade begins the next one. -/
theorem units_mul_add {k s : Nat} (hle : 0 < k → binadeSize ≤ s) (hs : s ≤ 2 * binadeSize) :
    units (k * binadeSize + s) = s <<< k := by
  rcases Nat.lt_or_eq_of_le hs with hlt | rfl
  · by_cases hfull : binadeSize ≤ s
    · exact units_binade_add hfull hlt
    · obtain rfl : k = 0 := Nat.eq_zero_of_not_pos fun hk => hfull (hle hk)
      rw [Nat.zero_mul, Nat.zero_add, units, if_pos (Nat.lt_of_not_le hfull), Nat.shiftLeft_zero]
  · have hsplit : k * binadeSize + 2 * binadeSize = (k + 1) * binadeSize + binadeSize := by
      rw [Nat.succ_mul k, Nat.two_mul, Nat.add_assoc]
    rw [hsplit, units_binade_add (Nat.le_refl _) (by decide), Nat.shiftLeft_succ_inside,
      Nat.mul_comm]

theorem units_lt_units (h : magnitude < magnitude') : units magnitude < units magnitude' := by
  refine Nat.lt_of_le_of_ne (units_le_units (Nat.le_of_lt h)) ?_
  intro heq
  have hround := nearestMagnitude_units magnitude Nat.one_pos
  rw [heq, nearestMagnitude_units magnitude' Nat.one_pos] at hround
  exact Nat.ne_of_gt h hround

/-- The magnitude at or below a ratio, no magnitude lying between the two. -/
def lowerMagnitude (num den : Nat) : Nat :=
  excessBits num den * binadeSize + num / (den <<< excessBits num den)

theorem div_lt_two_mul_binadeSize (hden : 0 < den) :
    num / (den <<< excessBits num den) < 2 * binadeSize :=
  (Nat.div_lt_iff_lt_mul (Nat.shiftLeft_pos_iff.mpr hden)).mpr (lt_two_mul_binadeSize hden)

theorem binadeSize_le_div (hden : 0 < den) (h : 0 < excessBits num den) :
    binadeSize ≤ num / (den <<< excessBits num den) :=
  (Nat.le_div_iff_mul_le (Nat.shiftLeft_pos_iff.mpr hden)).mpr (binadeSize_mul_le hden h)

theorem units_lowerMagnitude (hden : 0 < den) :
    units (lowerMagnitude num den) =
      (num / (den <<< excessBits num den)) <<< excessBits num den :=
  units_mul_add (binadeSize_le_div hden) (Nat.le_of_lt (div_lt_two_mul_binadeSize hden))

theorem lowerMagnitude_succ (num den : Nat) :
    lowerMagnitude num den + 1 =
      excessBits num den * binadeSize + (num / (den <<< excessBits num den) + 1) :=
  Nat.add_assoc ..

theorem units_lowerMagnitude_succ (hden : 0 < den) :
    units (lowerMagnitude num den + 1) =
      (num / (den <<< excessBits num den) + 1) <<< excessBits num den := by
  rw [lowerMagnitude_succ]
  exact units_mul_add (fun h => Nat.le_succ_of_le (binadeSize_le_div hden h))
    (div_lt_two_mul_binadeSize hden)

theorem shiftLeft_mul (n k den : Nat) : n <<< k * den = n * den <<< k := by
  rw [Nat.shiftLeft_eq, Nat.shiftLeft_eq, Nat.mul_assoc, Nat.mul_comm den]

/-! ## Where the ratio lies between its neighbours -/

/-- A ratio between two neighbours: how far it is from the lower one, and how long the step
between them is. -/
structure Between (num den : Nat) : Prop where
  lower : units (lowerMagnitude num den) * den + num % (den <<< excessBits num den) = num
  upper : units (lowerMagnitude num den + 1) * den =
    units (lowerMagnitude num den) * den + den <<< excessBits num den
  lt : num % (den <<< excessBits num den) < den <<< excessBits num den

theorem between (num : Nat) (hden : 0 < den) : Between num den where
  lower := by
    rw [units_lowerMagnitude hden, shiftLeft_mul, Nat.mul_comm]
    exact Nat.div_add_mod num _
  upper := by
    rw [units_lowerMagnitude_succ hden, units_lowerMagnitude hden, shiftLeft_mul, shiftLeft_mul,
      Nat.succ_mul]
  lt := Nat.mod_lt _ (Nat.shiftLeft_pos_iff.mpr hden)

theorem lowerMagnitude_mod_two (num den : Nat) :
    lowerMagnitude num den % 2 = num / (den <<< excessBits num den) % 2 := by
  have hbinades : excessBits num den * binadeSize % 2 = 0 :=
    Nat.mod_eq_zero_of_dvd (Nat.dvd_mul_left_of_dvd (by decide) _)
  rw [lowerMagnitude, Nat.add_mod, hbinades, Nat.zero_add, Nat.mod_mod]

/-- Rounding goes to the lower neighbour up to the middle, and to the upper one from there
on; in the middle it goes to the even one. -/
theorem nearestMagnitude_cases (num den : Nat) :
    (nearestMagnitude num den = lowerMagnitude num den ∧
        (2 * (num % (den <<< excessBits num den)) < den <<< excessBits num den ∨
          2 * (num % (den <<< excessBits num den)) = den <<< excessBits num den ∧
            lowerMagnitude num den % 2 = 0)) ∨
      nearestMagnitude num den = lowerMagnitude num den + 1 ∧
        (den <<< excessBits num den < 2 * (num % (den <<< excessBits num den)) ∨
          2 * (num % (den <<< excessBits num den)) = den <<< excessBits num den ∧
            lowerMagnitude num den % 2 = 1) := by
  rw [lowerMagnitude_mod_two, lowerMagnitude_succ, lowerMagnitude]
  simp only [nearestMagnitude, roundDiv, Tie.takesUpper, Bool.or_eq_true, Bool.and_eq_true,
    decide_eq_true_eq, beq_iff_eq]
  split
  · next hupper => exact .inr ⟨rfl, hupper⟩
  · next hlower =>
    refine .inl ⟨rfl, ?_⟩
    omega

/-! ## Nearest of all -/

/-- The ratio does not lie above the middle between what it is rounded to and anything
greater, and in the middle only if that is even. -/
theorem two_mul_le_of_nearestMagnitude_lt (hden : 0 < den)
    (h : nearestMagnitude num den < magnitude') :
    2 * num < (units (nearestMagnitude num den) + units magnitude') * den ∨
      2 * num = (units (nearestMagnitude num den) + units magnitude') * den ∧
        nearestMagnitude num den % 2 = 0 := by
  have hlt := Nat.mul_lt_mul_of_pos_right (units_lt_units h) hden
  obtain ⟨hlower, hupper, hmod⟩ := between num hden
  rw [Nat.add_mul]
  rcases nearestMagnitude_cases num den with ⟨heq, hcase⟩ | ⟨heq, -⟩
  · -- the greater magnitude is the upper neighbour or beyond it
    rw [heq] at h ⊢
    have hbeyond := Nat.mul_le_mul_right den (units_le_units (Nat.succ_le_of_lt h))
    rw [Nat.succ_eq_add_one] at hbeyond
    omega
  · rw [heq] at hlt ⊢
    omega

theorem le_two_mul_of_lt_nearestMagnitude (hden : 0 < den)
    (h : magnitude' < nearestMagnitude num den) :
    (units magnitude' + units (nearestMagnitude num den)) * den < 2 * num ∨
      (units magnitude' + units (nearestMagnitude num den)) * den = 2 * num ∧
        nearestMagnitude num den % 2 = 0 := by
  have hlt := Nat.mul_lt_mul_of_pos_right (units_lt_units h) hden
  obtain ⟨hlower, hupper, hmod⟩ := between num hden
  rw [Nat.add_mul]
  rcases nearestMagnitude_cases num den with ⟨heq, -⟩ | ⟨heq, hcase⟩
  · rw [heq] at hlt ⊢
    omega
  · -- the lesser magnitude is the lower neighbour or before it
    rw [heq] at h ⊢
    have hbefore := Nat.mul_le_mul_right den (units_le_units (Nat.le_of_lt_succ h))
    omega

end Stepwise.Binary64
