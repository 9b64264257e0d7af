import Stepwise.Proofs.Decimal.Shortest
import Stepwise.Proofs.Decimal.Value
import Mathlib.Algebra.Order.Field.Power

/-!
# What is read as one magnitude

The decimal numbers that are read as a magnitude lie around its value with no gap: a greater
decimal number is never read as a lesser magnitude, so whatever lies between two of them is
one of them too (`readsAs_of_between`), and the value itself is one (`readsAs_exact`).  That
is all that the search for the shortest decimal number needs to know about rounding, but for
one case.

A power of ten can be the only point of its grid that is read back and lie above the value,
with the next finer grid reaching up to nine tenths of it.  Nothing in the shape of the
interval says that the power is the nearer of the two.  The subnormals have to be looked at:
only among the first nine of them is the step between neighbours so long, and there no power
of ten lies that badly (`nineteen_mul_le`).
-/

namespace Stepwise

namespace Binary64

variable {num den num' den' magnitude : Nat}

/-! ## Rounding keeps the order -/

theorem nearestMagnitude_mono (hden : 0 < den) (hden' : 0 < den')
    (h : ratio num den ≤ ratio num' den') :
    nearestMagnitude num den ≤ nearestMagnitude num' den' := by
  by_contra hlt
  have hlt := Nat.lt_of_not_le hlt
  have habove := le_two_mul_of_lt_nearestMagnitude hden hlt
  have hlower := (le_two_mul_ratio_iff hden).mpr (habove.elim Nat.le_of_lt fun h => h.1.le)
  rcases Nat.lt_or_eq_of_le (Nat.succ_le_of_lt hlt) with hbetween | hnext
  · -- the lesser ratio is above the middle of two magnitudes, the greater one below it
    have hbelow := two_mul_le_of_nearestMagnitude_lt hden'
      (Nat.lt_succ_self (nearestMagnitude num' den'))
    have hupper := (two_mul_ratio_le_iff hden').mpr (hbelow.elim Nat.le_of_lt fun h => h.1.le)
    have hvalue := magnitudeValue_lt_magnitudeValue hbetween
    linarith
  · -- of two neighbours one is odd, so one of the ratios is not in the middle
    have hbelow := two_mul_le_of_nearestMagnitude_lt hden' hlt
    have hupper := (two_mul_ratio_le_iff hden').mpr (hbelow.elim Nat.le_of_lt fun h => h.1.le)
    rcases habove with hstrict | ⟨-, heven⟩
    · have hne := mt (two_mul_ratio_le_iff hden).mp (Nat.not_le.mpr hstrict)
      linarith
    · rcases hbelow with hstrict | ⟨-, heven'⟩
      · have hne := mt (le_two_mul_ratio_iff hden').mp (Nat.not_le.mpr hstrict)
        linarith
      · omega

/-! ## The step to the next magnitude -/

theorem units_succ (magnitude : Nat) :
    units (magnitude + 1) = (significand magnitude + 1) <<< binade magnitude := by
  have hsplit := binade_mul_add_significand magnitude
  have hnext : magnitude + 1 = binade magnitude * binadeSize + (significand magnitude + 1) := by
    rw [← Nat.add_assoc, hsplit]
  conv_lhs => rw [hnext]
  exact units_mul_add (fun h => Nat.le_succ_of_le (le_significand h)) (significand_lt magnitude)

theorem le_nine_of_units_lt (h : 21 * units magnitude < 19 * units (magnitude + 1)) :
    magnitude ≤ 9 := by
  rw [units_succ, units_eq, Nat.shiftLeft_eq, Nat.shiftLeft_eq, ← Nat.mul_assoc, ← Nat.mul_assoc]
    at h
  have hsignificand := Nat.lt_of_mul_lt_mul_right h
  have hsplit := binade_mul_add_significand magnitude
  rcases Nat.eq_zero_or_pos (binade magnitude) with hzero | hpos
  · rw [hzero] at hsplit
    omega
  · have hfull := le_significand hpos
    simp only [binadeSize] at hfull
    omega

end Binary64

namespace Decimal

open Binary64 (units unitsInOne infiniteMagnitude binadeSize ratio nearestMagnitude
  magnitudeValue)

variable {magnitude : Nat} {d e f : Decimal}

/-! ## The order of decimal numbers -/

/-- A decimal number as a ratio of units, and what is nearest to it. -/
theorem exists_ratio (d : Decimal) : ∃ num den, 0 < den ∧ ratio num den = d.toRat ∧
    (d.nearest false).magnitude = min (nearestMagnitude num den) infiniteMagnitude := by
  obtain ⟨significand, exponent⟩ := d
  cases exponent with
  | ofNat k =>
      refine ⟨_, 1, Nat.one_pos, ratio_ofNat significand k, ?_⟩
      rw [nearest_ofNat, Binary64.magnitude_ofRatio]
  | negSucc k =>
      refine ⟨_, _, tenTo_pos (k + 1), ratio_negSucc significand k, ?_⟩
      rw [nearest_negSucc, Binary64.magnitude_ofRatio]

theorem magnitude_nearest_le (h : d.toRat ≤ e.toRat) :
    (d.nearest false).magnitude ≤ (e.nearest false).magnitude := by
  obtain ⟨num, den, hden, hratio, hmagnitude⟩ := exists_ratio d
  obtain ⟨num', den', hden', hratio', hmagnitude'⟩ := exists_ratio e
  rw [← hratio, ← hratio'] at h
  have hle := Binary64.nearestMagnitude_mono hden hden' h
  rw [hmagnitude, hmagnitude']
  exact min_le_min_right _ hle

/-- What lies between two decimal numbers that are read as one magnitude is read as it
too. -/
theorem readsAs_of_between (hd : readsAs magnitude d = true) (hf : readsAs magnitude f = true)
    (hde : d.toRat ≤ e.toRat) (hef : e.toRat ≤ f.toRat) : readsAs magnitude e = true := by
  rw [readsAs_iff] at hd hf ⊢
  have hlower := magnitude_nearest_le hde
  have hupper := magnitude_nearest_le hef
  omega

theorem toRat_mk (s : Nat) (exponent : Int) : toRat ⟨s, exponent⟩ = s * 10 ^ exponent := rfl

theorem toRat_one (exponent : Int) : toRat ⟨1, exponent⟩ = 10 ^ exponent := by
  rw [toRat_mk, Nat.cast_one, one_mul]

theorem toRat_le_toRat {s t : Nat} (h : s ≤ t) (exponent : Int) :
    toRat ⟨s, exponent⟩ ≤ toRat ⟨t, exponent⟩ :=
  mul_le_mul_of_nonneg_right (Nat.cast_le.mpr h) (by positivity)

theorem significand_pos (hne : magnitude ≠ 0) (h : readsAs magnitude d = true) :
    0 < d.significand := by
  refine Nat.pos_of_ne_zero ?_
  intro hzero
  rw [readsAs_iff, nearest, if_pos hzero] at h
  exact hne h.symm

/-! ## The value of a magnitude -/

/-- The decimal number that a magnitude is. -/
def exact (magnitude : Nat) : Decimal := ⟨units magnitude * Nat.pow 5 1074, -1074⟩

theorem toRat_eq_of_mul_eq {significand n k : Nat} {exponent : Int} (hexponent : exponent = -k)
    (hvalue : significand * 1 <<< k = n * tenTo k) :
    toRat ⟨significand, exponent⟩ = n / ((1 <<< k : Nat) : ℚ) := by
  have htens : (0 : ℚ) < tenTo k := Nat.cast_pos.mpr (tenTo_pos k)
  have hstep : (0 : ℚ) < (1 <<< k : Nat) :=
    Nat.cast_pos.mpr (Nat.shiftLeft_pos_iff.mpr Nat.one_pos)
  rw [hexponent, toRat_mk, zpow_neg, zpow_natCast, ← cast_tenTo, ← div_eq_mul_inv,
    div_eq_div_iff htens.ne' hstep.ne', ← Nat.cast_mul, ← Nat.cast_mul, hvalue]

theorem toRat_exact (magnitude : Nat) : (exact magnitude).toRat = magnitudeValue magnitude :=
  toRat_eq_of_mul_eq rfl (mul_pow_five_mul_shiftLeft (units magnitude) 1074)

theorem readsAs_of_le_value (hne : magnitude ≠ 0) (h : magnitude ≤ infiniteMagnitude)
    (hd : readsAs magnitude d = true) (hde : d.toRat ≤ e.toRat)
    (hvalue : e.toRat ≤ magnitudeValue magnitude) : readsAs magnitude e = true := by
  rw [← toRat_exact] at hvalue
  exact readsAs_of_between hd (readsAs_exact (Binary64.units_ne_zero hne) h) hde hvalue

theorem readsAs_of_value_le (hne : magnitude ≠ 0) (h : magnitude ≤ infiniteMagnitude)
    (hd : readsAs magnitude d = true) (hvalue : magnitudeValue magnitude ≤ e.toRat)
    (hed : e.toRat ≤ d.toRat) : readsAs magnitude e = true := by
  rw [← toRat_exact] at hvalue
  exact readsAs_of_between (readsAs_exact (Binary64.units_ne_zero hne) h) hd hvalue hed

/-! ## A power of ten above the value -/

theorem two_mul_toRat_le (h : magnitude < infiniteMagnitude) (hd : readsAs magnitude d = true) :
    2 * d.toRat ≤ magnitudeValue magnitude + magnitudeValue (magnitude + 1) := by
  obtain ⟨num, den, hden, hratio, hmagnitude⟩ := exists_ratio d
  rw [readsAs_iff, hmagnitude] at hd
  obtain rfl : nearestMagnitude num den = magnitude := by omega
  have hmiddle := Binary64.two_mul_le_of_nearestMagnitude_lt hden
    (Nat.lt_succ_self (nearestMagnitude num den))
  rw [← hratio]
  exact (Binary64.two_mul_ratio_le_iff hden).mpr (hmiddle.elim Nat.le_of_lt fun h => h.1.le)

theorem magnitudeValue_of_lt (h : magnitude < binadeSize) :
    magnitudeValue magnitude = magnitude / unitsInOne := by
  rw [magnitudeValue, units, if_pos h]

theorem two_units_lt_power : 2.02 / unitsInOne < (10 : ℚ) ^ (-323 : Int) ∧
    (10 : ℚ) ^ (-323 : Int) < 2.03 / unitsInOne := by
  have hunits := Binary64.unitsInOne_cast_pos
  have htens : (0 : ℚ) < tenTo 323 := Nat.cast_pos.mpr (tenTo_pos 323)
  have hlower : 202 * tenTo 323 < 100 * unitsInOne := by decide +kernel
  have hupper : 100 * unitsInOne < 203 * tenTo 323 := by decide +kernel
  have hlower : (202 : ℚ) * tenTo 323 < 100 * unitsInOne := by exact_mod_cast hlower
  have hupper : (100 : ℚ) * unitsInOne < 203 * tenTo 323 := by exact_mod_cast hupper
  rw [zpow_neg, show (323 : Int) = (323 : Nat) from rfl, zpow_natCast, ← cast_tenTo,
    ← one_div, div_lt_div_iff₀ hunits htens, div_lt_div_iff₀ htens hunits]
  constructor <;> linarith

/-- Where the next magnitude is so much larger, the magnitude is one of the least. -/
theorem le_nine_of_lt_next
    (h : 21 * magnitudeValue magnitude < 19 * magnitudeValue (magnitude + 1)) :
    magnitude ≤ 9 := by
  refine Binary64.le_nine_of_units_lt ?_
  rw [magnitudeValue, magnitudeValue, ← mul_div_assoc, ← mul_div_assoc,
    div_lt_div_iff_of_pos_right Binary64.unitsInOne_cast_pos] at h
  exact_mod_cast h

/-- The only power of ten between the least magnitudes and the middles above them is not far
above the magnitude, two, that it is read as. -/
theorem nineteen_mul_le_of_le_nine {k : Int} (hne : magnitude ≠ 0) (hnine : magnitude ≤ 9)
    (habove : (magnitude : ℚ) / unitsInOne < 10 ^ k)
    (hmiddle : 2 * (10 : ℚ) ^ k ≤ magnitude / unitsInOne + (magnitude + 1 : Nat) / unitsInOne) :
    19 * (10 : ℚ) ^ k ≤ 20 * (magnitude / unitsInOne) := by
  by_contra hfar
  have hfar := lt_of_not_ge hfar
  have hunits := Binary64.unitsInOne_cast_pos
  obtain ⟨hlower, hupper⟩ := two_units_lt_power
  -- all in units
  generalize hunit : (1 : ℚ) / unitsInOne = unit at *
  have hunit_pos : 0 < unit := hunit ▸ one_div_pos.mpr hunits
  have hcount : ∀ q : ℚ, q / unitsInOne = q * unit := fun q => by rw [← hunit, mul_one_div]
  rw [hcount] at hlower hupper hfar habove
  rw [hcount, hcount] at hmiddle
  push_cast at hmiddle
  have hone : (1 : ℚ) ≤ magnitude := Nat.one_le_cast.mpr (Nat.pos_of_ne_zero hne)
  have hnine : (magnitude : ℚ) ≤ 9 := by exact_mod_cast hnine
  rcases Int.lt_trichotomy k (-323) with hlt | rfl | hgt
  · -- the power is less than the least positive number
    have hle : (10 : ℚ) ^ k ≤ 10 ^ (-324 : Int) := zpow_le_zpow_right₀ (by norm_num) (by omega)
    have hten : (10 : ℚ) ^ (-323 : Int) = 10 ^ (-324 : Int) * 10 := by
      rw [← zpow_add_one₀ (by norm_num)]
      rfl
    nlinarith
  · have hlt : (magnitude : ℚ) * unit < 2 * unit := by linarith
    have hlt : (magnitude : ℚ) < 2 := lt_of_mul_lt_mul_right hlt hunit_pos.le
    have heq : magnitude = 1 := by
      have : magnitude < 2 := by exact_mod_cast hlt
      omega
    rw [heq, Nat.cast_one] at hmiddle
    linarith
  · -- it is more than twice the ninth
    have hle : (10 : ℚ) ^ (-322 : Int) ≤ 10 ^ k := zpow_le_zpow_right₀ (by norm_num) (by omega)
    have hten : (10 : ℚ) ^ (-322 : Int) = 10 ^ (-323 : Int) * 10 := by
      rw [← zpow_add_one₀ (by norm_num)]
      rfl
    nlinarith

/-- A power of ten that is read as a magnitude and lies above its value lies above it by no
more than a twentieth. -/
theorem nineteen_mul_le (hne : magnitude ≠ 0) (h : magnitude < infiniteMagnitude) {k : Int}
    (hread : readsAs magnitude ⟨1, k⟩ = true) (habove : magnitudeValue magnitude < 10 ^ k) :
    19 * (10 : ℚ) ^ k ≤ 20 * magnitudeValue magnitude := by
  have hmiddle := two_mul_toRat_le h hread
  rw [toRat_one] at hmiddle
  by_contra hfar
  have hnine : magnitude ≤ 9 := le_nine_of_lt_next (by linarith [lt_of_not_ge hfar])
  -- these are subnormal, which the count of units is for
  have hsmall : magnitude + 1 < binadeSize :=
    Nat.lt_of_le_of_lt (Nat.succ_le_succ hnine) (by decide)
  rw [magnitudeValue_of_lt (Nat.lt_of_succ_lt hsmall)] at hfar hmiddle habove
  rw [magnitudeValue_of_lt hsmall] at hmiddle
  exact hfar (nineteen_mul_le_of_le_nine hne hnine habove hmiddle)

end Decimal
end Stepwise
