import Stepwise.Proofs.Decimal.Interval
import Mathlib.Data.Nat.Cast.Order.Field

/-!
# The coarsest grid

What the search for the shortest decimal number gives is the nearest point of the coarsest
grid that holds one which is read back (`coarsest_shortest`).  From this alone it follows,
against any decimal number that is read back, that

* the one given has no more digits (`Coarsest.significand_lt`): with fewer of them there would
  be a power of ten between the two, which lies on a coarser grid;
* of those with as many digits it is the nearest to the value (`Coarsest.abs_sub_toRat_le`):
  on a finer grid they are all below the points of the coarsest grid that have so many digits.
-/

namespace Stepwise.Decimal

open Binary64 (units unitsInOne infiniteMagnitude magnitudeValue)

variable {tie : Tie} {magnitude : Nat} {exponent top : Int} {d : Decimal}

/-! ## Rounding a quotient -/

theorem roundDiv_cases (tie : Tie) (num den : Nat) :
    (roundDiv tie num den = num / den ∧ 2 * (num % den) ≤ den) ∨
      (roundDiv tie num den = num / den + 1 ∧ den ≤ 2 * (num % den)) := by
  simp only [roundDiv, Bool.or_eq_true, Bool.and_eq_true, decide_eq_true_eq, beq_iff_eq]
  split
  · next hupper => exact .inr ⟨rfl, by omega⟩
  · next hlower => exact .inl ⟨rfl, by omega⟩

theorem cast_div_eq (num : Nat) {den : Nat} (hden : 0 < den) :
    (num / den : ℚ) = (num / den : Nat) + (num % den : Nat) / (den : ℚ) := by
  have hpos : (0 : ℚ) < den := Nat.cast_pos.mpr hden
  have hsplit : ((den * (num / den) + num % den : Nat) : ℚ) = num :=
    congrArg Nat.cast (Nat.div_add_mod num den)
  rw [← hsplit, Nat.cast_add, Nat.cast_mul, add_div, mul_div_cancel_left₀ _ hpos.ne']

theorem div_le_cast_succ (num : Nat) {den : Nat} (hden : 0 < den) :
    (num / den : ℚ) ≤ (num / den + 1 : Nat) := by
  have hpos : (0 : ℚ) < den := Nat.cast_pos.mpr hden
  have hlt : num < (num / den + 1) * den := (Nat.div_lt_iff_lt_mul hden).mp (Nat.lt_succ_self _)
  rw [div_le_iff₀ hpos, ← Nat.cast_mul]
  exact Nat.cast_le.mpr hlt.le

section Distance

variable {r : ℚ} {lower n : Nat}

theorem abs_sub_le_of_le_lower (h : lower ≤ r) (hn : n ≤ lower) : |r - lower| ≤ |r - n| := by
  have hn : (n : ℚ) ≤ lower := Nat.cast_le.mpr hn
  rw [abs_of_nonneg (sub_nonneg.mpr h), abs_of_nonneg (sub_nonneg.mpr (hn.trans h))]
  linarith

theorem abs_sub_le_of_upper_le (h : r ≤ (lower + 1 : Nat)) (hn : lower + 1 ≤ n) :
    |r - (lower + 1 : Nat)| ≤ |r - n| := by
  have hn : ((lower + 1 : Nat) : ℚ) ≤ n := Nat.cast_le.mpr hn
  rw [abs_of_nonpos (sub_nonpos.mpr h), abs_of_nonpos (sub_nonpos.mpr (h.trans hn))]
  linarith

end Distance

theorem abs_sub_roundDiv_le (tie : Tie) (num : Nat) {den : Nat} (hden : 0 < den) (n : Nat) :
    |(num / den : ℚ) - roundDiv tie num den| ≤ |(num / den : ℚ) - n| := by
  have hpos : (0 : ℚ) < den := Nat.cast_pos.mpr hden
  have hsplit := cast_div_eq num hden
  have hlower : ((num / den : Nat) : ℚ) ≤ num / den := Nat.cast_div_le
  have hupper := div_le_cast_succ num hden
  have hstep : ((num / den : Nat) : ℚ) < (num / den + 1 : Nat) :=
    Nat.cast_lt.mpr (Nat.lt_succ_self _)
  rcases roundDiv_cases tie num den with ⟨heq, hrest⟩ | ⟨heq, hrest⟩
  · -- the rest is at most half a step
    have hhalf : ((num % den : Nat) : ℚ) / den ≤ 1 / 2 := by
      rw [div_le_div_iff₀ hpos two_pos, one_mul]
      exact_mod_cast Nat.mul_comm 2 _ ▸ hrest
    have hmiddle : 2 * (num / den : ℚ) ≤ (num / den : Nat) + (num / den + 1 : Nat) := by
      rw [Nat.cast_succ]
      linarith
    rw [heq]
    rcases Nat.lt_or_ge (num / den) n with hn | hn
    · exact (Binary64.abs_sub_le_of_two_mul_le hstep hmiddle).1.trans
        (abs_sub_le_of_upper_le hupper hn)
    · exact abs_sub_le_of_le_lower hlower hn
  · have hhalf : 1 / 2 ≤ ((num % den : Nat) : ℚ) / den := by
      rw [div_le_div_iff₀ two_pos hpos, one_mul]
      exact_mod_cast Nat.mul_comm 2 _ ▸ hrest
    have hmiddle : (num / den : Nat) + (num / den + 1 : Nat) ≤ 2 * (num / den : ℚ) := by
      rw [Nat.cast_succ]
      linarith
    rw [heq]
    rcases Nat.lt_or_ge (num / den) n with hn | hn
    · exact abs_sub_le_of_upper_le hupper hn
    · exact (Binary64.abs_sub_le_of_le_two_mul hstep hmiddle).1.trans
        (abs_sub_le_of_le_lower hlower hn)

/-! ## The neighbours on a grid -/

/-- The value in steps of a grid. -/
def steps (exponent : Int) (magnitude : Nat) : ℚ :=
  (stepsOn exponent (units magnitude)).1 / (stepsOn exponent (units magnitude)).2

/-- How many whole steps of a grid there are up to the value. -/
def wholeSteps (exponent : Int) (magnitude : Nat) : Nat :=
  (stepsOn exponent (units magnitude)).1 / (stepsOn exponent (units magnitude)).2

theorem stepsOn_pos (exponent : Int) (size : Nat) : 0 < (stepsOn exponent size).2 := by
  cases exponent with
  | ofNat k => exact Nat.mul_pos Binary64.unitsInOne_pos (tenTo_pos k)
  | negSucc k => exact Binary64.unitsInOne_pos

theorem steps_mul (exponent : Int) (magnitude : Nat) :
    steps exponent magnitude * 10 ^ exponent = magnitudeValue magnitude := by
  have hunits := Binary64.unitsInOne_cast_pos
  cases exponent with
  | ofNat k =>
      have htens : (0 : ℚ) < tenTo k := Nat.cast_pos.mpr (tenTo_pos k)
      simp only [steps, stepsOn, Int.ofNat_eq_natCast, zpow_natCast, ← cast_tenTo, Nat.cast_mul,
        magnitudeValue]
      field_simp
  | negSucc k =>
      have htens : (0 : ℚ) < tenTo (k + 1) := Nat.cast_pos.mpr (tenTo_pos (k + 1))
      simp only [steps, stepsOn, zpow_negSucc, ← cast_tenTo, Nat.cast_mul, magnitudeValue]
      field_simp

theorem abs_sub_toRat (exponent : Int) (magnitude n : Nat) :
    |magnitudeValue magnitude - toRat ⟨n, exponent⟩| =
      |steps exponent magnitude - n| * 10 ^ exponent := by
  have hpos : (0 : ℚ) < 10 ^ exponent := by positivity
  rw [← steps_mul exponent magnitude, toRat_mk, ← sub_mul, abs_mul, abs_of_pos hpos]

theorem abs_sub_toRat_le_iff (exponent : Int) (magnitude n n' : Nat) :
    |magnitudeValue magnitude - toRat ⟨n, exponent⟩| ≤
        |magnitudeValue magnitude - toRat ⟨n', exponent⟩| ↔
      |steps exponent magnitude - n| ≤ |steps exponent magnitude - n'| := by
  have hpos : (0 : ℚ) < 10 ^ exponent := by positivity
  rw [abs_sub_toRat, abs_sub_toRat, mul_le_mul_iff_of_pos_right hpos]

theorem toRat_wholeSteps_le (exponent : Int) (magnitude : Nat) :
    toRat ⟨wholeSteps exponent magnitude, exponent⟩ ≤ magnitudeValue magnitude := by
  rw [← steps_mul exponent magnitude]
  exact mul_le_mul_of_nonneg_right Nat.cast_div_le (by positivity)

theorem le_toRat_wholeSteps_succ (exponent : Int) (magnitude : Nat) :
    magnitudeValue magnitude ≤ toRat ⟨wholeSteps exponent magnitude + 1, exponent⟩ := by
  rw [← steps_mul exponent magnitude]
  exact mul_le_mul_of_nonneg_right (div_le_cast_succ _ (stepsOn_pos exponent _)) (by positivity)

/-- If a point of a grid is read back, so is the neighbour of the value on the same side. -/
theorem readsAs_neighbour (hne : magnitude ≠ 0) (h : magnitude ≤ infiniteMagnitude) {n : Nat}
    (hread : readsAs magnitude ⟨n, exponent⟩ = true) :
    (n ≤ wholeSteps exponent magnitude ∧
        readsAs magnitude ⟨wholeSteps exponent magnitude, exponent⟩ = true) ∨
      (wholeSteps exponent magnitude + 1 ≤ n ∧
        readsAs magnitude ⟨wholeSteps exponent magnitude + 1, exponent⟩ = true) := by
  rcases Nat.lt_or_ge (wholeSteps exponent magnitude) n with hn | hn
  · exact .inr ⟨hn, readsAs_of_value_le hne h hread (le_toRat_wholeSteps_succ exponent magnitude)
      (toRat_le_toRat hn exponent)⟩
  · exact .inl ⟨hn, readsAs_of_le_value hne h hread (toRat_le_toRat hn exponent)
      (toRat_wholeSteps_le exponent magnitude)⟩

/-- The search on one grid gives the nearest of the points that are read back ... -/
theorem nearest_of_neighbour? (hne : magnitude ≠ 0) (h : magnitude ≤ infiniteMagnitude)
    (hd : neighbour? tie magnitude exponent = some d) :
    d.exponent = exponent ∧ ∀ n, readsAs magnitude ⟨n, exponent⟩ = true →
      |magnitudeValue magnitude - d.toRat| ≤ |magnitudeValue magnitude - toRat ⟨n, exponent⟩| := by
  have hneighbour := @readsAs_neighbour magnitude exponent hne h
  simp only [neighbour?] at hd
  split at hd
  · cases hd
    refine ⟨rfl, fun n _ => (abs_sub_toRat_le_iff ..).mpr ?_⟩
    exact abs_sub_roundDiv_le tie _ (stepsOn_pos exponent _) n
  · next _ hupper =>
    cases hd
    refine ⟨rfl, fun n hread => (abs_sub_toRat_le_iff ..).mpr ?_⟩
    rcases hneighbour hread with ⟨hn, -⟩ | ⟨-, hread⟩
    · exact abs_sub_le_of_le_lower Nat.cast_div_le hn
    · exact absurd hread (Bool.eq_false_iff.mp hupper)
  · next hlower _ =>
    cases hd
    refine ⟨rfl, fun n hread => (abs_sub_toRat_le_iff ..).mpr ?_⟩
    rcases hneighbour hread with ⟨-, hread⟩ | ⟨hn, -⟩
    · exact absurd hread (Bool.eq_false_iff.mp hlower)
    · exact abs_sub_le_of_upper_le (div_le_cast_succ _ (stepsOn_pos exponent _)) hn
  · cases hd

/-- ... and nothing only if there is none. -/
theorem not_readsAs_of_neighbour? (hne : magnitude ≠ 0) (h : magnitude ≤ infiniteMagnitude)
    (hd : neighbour? tie magnitude exponent = none) (n : Nat) :
    readsAs magnitude ⟨n, exponent⟩ ≠ true := by
  intro hread
  have hneighbour := readsAs_neighbour hne h hread
  simp only [neighbour?] at hd
  split at hd
  · cases hd
  · cases hd
  · cases hd
  · next hlower hupper =>
    rcases hneighbour with ⟨-, hread⟩ | ⟨-, hread⟩
    · exact Bool.eq_false_iff.mp hlower hread
    · exact Bool.eq_false_iff.mp hupper hread

/-! ## The search -/

/-- What the search for the shortest decimal number looks for, on the grids whose exponent is at
most `top`: the nearest of the points that are read back on the coarsest grid with such a
point. -/
structure Coarsest (magnitude : Nat) (top : Int) (d : Decimal) : Prop where
  reads : readsAs magnitude d = true
  exponent_le : d.exponent ≤ top
  not_reads : ∀ n exponent, d.exponent < exponent → exponent ≤ top →
    readsAs magnitude ⟨n, exponent⟩ ≠ true
  nearest : ∀ n, readsAs magnitude ⟨n, d.exponent⟩ = true →
    |magnitudeValue magnitude - d.toRat| ≤ |magnitudeValue magnitude - toRat ⟨n, d.exponent⟩|

theorem coarsest_exact (hne : magnitude ≠ 0) (h : magnitude ≤ infiniteMagnitude) :
    Coarsest magnitude (-1074) (exact magnitude) where
  reads := readsAs_exact (Binary64.units_ne_zero hne) h
  exponent_le := le_refl _
  not_reads := fun n exponent hlt hle => absurd hlt (not_lt_of_ge hle)
  nearest := fun n _ => by
    rw [toRat_exact, sub_self, abs_zero]
    exact abs_nonneg _

theorem coarsest_shortestFrom (tie : Tie) (hne : magnitude ≠ 0)
    (h : magnitude ≤ infiniteMagnitude) (start : Nat) :
    Coarsest magnitude (start - 1074) (shortestFrom tie magnitude start) := by
  induction start with
  | zero => exact coarsest_exact hne h
  | succ start ih =>
      rw [shortestFrom, Nat.cast_succ]
      split
      · next d hd =>
        obtain ⟨hexponent, hnearest⟩ := nearest_of_neighbour? hne h hd
        rw [← hexponent] at hnearest ⊢
        exact {
          reads := readsAs_of_neighbour? hd
          exponent_le := le_refl _
          not_reads := fun n exponent hlt hle => absurd hlt (not_lt_of_ge hle)
          nearest := hnearest }
      · next hnone =>
        have hle := ih.exponent_le
        refine { ih with exponent_le := by omega, not_reads := fun n exponent hlt hle => ?_ }
        rcases Int.lt_or_eq_of_le hle with hfiner | rfl
        · exact ih.not_reads n exponent hlt (by omega)
        · exact not_readsAs_of_neighbour? hne h hnone n

theorem magnitudeValue_lt (magnitude : Nat) :
    magnitudeValue magnitude < 10 ^ (wholeDigits magnitude : Int) := by
  have hwhole : units magnitude / unitsInOne < 10 ^ wholeDigits magnitude :=
    (Nat.length_toDigits_le_iff (by decide) Nat.length_toDigits_pos).mp (le_refl _)
  have hlt := (Nat.div_lt_iff_lt_mul Binary64.unitsInOne_pos).mp hwhole
  rw [magnitudeValue, div_lt_iff₀ Binary64.unitsInOne_cast_pos, zpow_natCast]
  exact_mod_cast hlt

theorem coarsest_shortest (tie : Tie) (hne : magnitude ≠ 0) (h : magnitude ≤ infiniteMagnitude) :
    Coarsest magnitude (wholeDigits magnitude) (shortest tie magnitude) := by
  have hsearch := coarsest_shortestFrom tie hne h (1074 + wholeDigits magnitude)
  rw [Nat.cast_add, Nat.cast_ofNat, add_sub_cancel_left] at hsearch
  rw [shortest, if_neg hne]
  exact hsearch

/-! ## Against any decimal number that is read back -/

theorem power_le_toRat_of_le {n : Nat} (hn : 0 < n) (hle : top ≤ exponent) :
    toRat ⟨1, top⟩ ≤ toRat ⟨n, exponent⟩ := by
  refine le_trans ?_ (toRat_le_toRat hn exponent)
  rw [toRat_one, toRat_one]
  exact zpow_le_zpow_right₀ (by norm_num) hle

theorem toRat_power (k : Nat) (exponent : Int) :
    toRat ⟨1, k + exponent⟩ = (10 ^ k : Nat) * 10 ^ exponent := by
  rw [toRat_one, zpow_add₀ (by norm_num), zpow_natCast, Nat.cast_pow, Nat.cast_ofNat]

section Against

variable {n k : Nat}

theorem toRat_le_power {finer : Int} (hn : n ≤ 10 ^ k) (hle : finer ≤ exponent) :
    toRat ⟨n, finer⟩ ≤ toRat ⟨1, k + exponent⟩ := by
  rw [toRat_power, toRat_mk]
  have hstep : (10 : ℚ) ^ finer ≤ 10 ^ exponent := zpow_le_zpow_right₀ (by norm_num) hle
  exact mul_le_mul (Nat.cast_le.mpr hn) hstep (by positivity) (Nat.cast_nonneg _)

theorem power_le_toRat (hn : 10 ^ k ≤ n) : toRat ⟨1, k + exponent⟩ ≤ toRat ⟨n, exponent⟩ := by
  rw [toRat_power, toRat_mk]
  exact mul_le_mul_of_nonneg_right (Nat.cast_le.mpr hn) (by positivity)

namespace Coarsest

/-- If the power of ten on its grid is read back and lies above the value, it is the one
given. -/
theorem eq_one_of_lt_power (hd : Coarsest magnitude top d) (hne : magnitude ≠ 0)
    (hread : readsAs magnitude ⟨1, d.exponent⟩ = true)
    (habove : magnitudeValue magnitude < 10 ^ d.exponent) : d.significand = 1 := by
  have hnear := hd.nearest 1 hread
  rw [toRat_one, abs_of_neg (sub_neg.mpr habove)] at hnear
  have hupper := neg_le_of_abs_le hnear
  have hle : (d.significand : ℚ) * 10 ^ d.exponent ≤ 1 * 10 ^ d.exponent := by
    rw [toRat] at hupper
    linarith
  have hle := le_of_mul_le_mul_right hle (by positivity)
  exact Nat.le_antisymm (Nat.cast_le_one.mp hle) (significand_pos hne hd.reads)

/-- Beyond the coarsest grid with a point that is read back another such point is only found
where the search does not look, far above the value; the one given is then a power of ten. -/
theorem eq_one_of_exponent_lt (hd : Coarsest magnitude top d) (hne : magnitude ≠ 0)
    (h : magnitude ≤ infiniteMagnitude) (htop : magnitudeValue magnitude < 10 ^ top)
    (hread : readsAs magnitude ⟨n, exponent⟩ = true) (hlt : d.exponent < exponent) :
    d.significand = 1 ∧ magnitudeValue magnitude < 10 ^ d.exponent := by
  have hbeyond : top < exponent := by
    by_contra hle
    exact hd.not_reads n exponent hlt (not_lt.mp hle) hread
  have hreads : readsAs magnitude ⟨1, top⟩ = true :=
    readsAs_of_value_le hne h hread (toRat_one top ▸ htop.le)
      (power_le_toRat_of_le (significand_pos hne hread) hbeyond.le)
  have hexponent : d.exponent = top := by
    by_contra hneq
    exact hd.not_reads 1 top (lt_of_le_of_ne hd.exponent_le hneq) (le_refl _) hreads
  rw [← hexponent] at hreads htop
  exact ⟨hd.eq_one_of_lt_power hne hreads htop, htop⟩

/-- No decimal number that is read back has fewer digits. -/
theorem significand_lt (hd : Coarsest magnitude top d) (hne : magnitude ≠ 0)
    (h : magnitude ≤ infiniteMagnitude) (htop : magnitudeValue magnitude < 10 ^ top)
    (hread : readsAs magnitude ⟨n, exponent⟩ = true) (hn : n < 10 ^ k) :
    d.significand < 10 ^ k := by
  have hk : k ≠ 0 := by
    rintro rfl
    have hpos : 0 < n := significand_pos hne hread
    rw [Nat.pow_zero] at hn
    omega
  have hone : 1 < 10 ^ k := Nat.one_lt_pow hk (by decide)
  rcases lt_or_ge d.exponent exponent with hlt | hle
  · rw [(hd.eq_one_of_exponent_lt hne h htop hread hlt).1]
    exact hone
  · by_contra hmany
    -- the power of ten between the two lies on a coarser grid
    have hmany := Nat.le_of_not_lt hmany
    have hpower : readsAs magnitude ⟨1, k + d.exponent⟩ = true :=
      readsAs_of_between hread hd.reads (toRat_le_power hn.le hle) (power_le_toRat hmany)
    have heq := (hd.eq_one_of_exponent_lt hne h htop hpower (by omega)).1
    omega

theorem abs_sub_toRat_le_of_digit (hd : Coarsest magnitude top d) (hne : magnitude ≠ 0)
    (h : magnitude < infiniteMagnitude) (hread : readsAs magnitude ⟨n, exponent⟩ = true)
    (hn : n ≤ 9) (hfiner : exponent < d.exponent) :
    |magnitudeValue magnitude - d.toRat| ≤
      |magnitudeValue magnitude - toRat ⟨n, exponent⟩| := by
  have hten : (10 : ℚ) ^ exponent ≤ 10 ^ d.exponent / 10 := by
    rw [div_eq_mul_inv, ← zpow_sub_one₀ (by norm_num)]
    exact zpow_le_zpow_right₀ (by norm_num) (by omega)
  have hnine : toRat ⟨n, exponent⟩ ≤ 9 * (10 ^ d.exponent / 10) :=
    mul_le_mul (by exact_mod_cast hn) hten (by positivity) (by norm_num)
  have hpos : (0 : ℚ) < 10 ^ d.exponent := by positivity
  have hreads : readsAs magnitude ⟨1, d.exponent⟩ = true := by
    refine readsAs_of_between hread hd.reads ?_ (toRat_le_toRat (significand_pos hne hd.reads) _)
    rw [toRat_one]
    linarith
  rcases lt_or_ge (magnitudeValue magnitude) (10 ^ d.exponent) with habove | hbelow
  · -- the one given is the power of ten
    have hone := hd.eq_one_of_lt_power hne hreads habove
    have hfar := nineteen_mul_le hne h hreads habove
    rw [toRat, hone, Nat.cast_one, one_mul, abs_of_neg (sub_neg.mpr habove),
      abs_of_nonneg (by linarith)]
    linarith
  · have hnear := hd.nearest 1 hreads
    rw [toRat_one, abs_of_nonneg (sub_nonneg.mpr hbelow)] at hnear
    refine hnear.trans (le_trans ?_ (le_abs_self _))
    linarith

/-- No decimal number that is read back is nearer to the value with as many digits. -/
theorem abs_sub_toRat_le (hd : Coarsest magnitude top d) (hne : magnitude ≠ 0)
    (h : magnitude < infiniteMagnitude) (htop : magnitudeValue magnitude < 10 ^ top)
    (hread : readsAs magnitude ⟨n, exponent⟩ = true) (hn : n < 10 ^ (k + 1))
    (hdigits : 10 ^ k ≤ d.significand) :
    |magnitudeValue magnitude - d.toRat| ≤
      |magnitudeValue magnitude - toRat ⟨n, exponent⟩| := by
  rcases lt_trichotomy exponent d.exponent with hfiner | rfl | hcoarser
  · rcases Nat.eq_zero_or_pos k with rfl | hk
    · exact hd.abs_sub_toRat_le_of_digit hne h hread (Nat.le_of_lt_succ hn) hfiner
    · -- the power of ten between the two would lie on a coarser grid
      have hbelow : toRat ⟨n, exponent⟩ ≤ toRat ⟨1, (k + 1 : Nat) + (d.exponent - 1)⟩ :=
        toRat_le_power hn.le (by omega)
      have hsame : ((k + 1 : Nat) + (d.exponent - 1) : Int) = k + d.exponent := by omega
      rw [hsame] at hbelow
      have hpower : readsAs magnitude ⟨1, k + d.exponent⟩ = true :=
        readsAs_of_between hread hd.reads hbelow (power_le_toRat hdigits)
      have heq := (hd.eq_one_of_exponent_lt hne h.le htop hpower (by omega)).1
      have hone : 1 < 10 ^ k := Nat.one_lt_pow (Nat.ne_of_gt hk) (by decide)
      omega
  · exact hd.nearest n hread
  · obtain ⟨hone, habove⟩ := hd.eq_one_of_exponent_lt hne h.le htop hread hcoarser
    have hpower : d.toRat = toRat ⟨1, d.exponent⟩ := by rw [toRat, hone, toRat_mk]
    have hle := power_le_toRat_of_le (significand_pos hne hread) hcoarser.le
    rw [← hpower] at hle
    rw [← toRat_one, ← hpower] at habove
    rw [abs_of_neg (sub_neg.mpr habove), abs_of_neg (sub_neg.mpr (habove.trans_le hle))]
    linarith

end Coarsest
end Against
end Stepwise.Decimal
