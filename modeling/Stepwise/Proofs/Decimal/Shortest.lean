import Stepwise.Decimal.Shortest
import Stepwise.Proofs.Binary64.Units

/-!
# The shortest decimal number reads back

The search only ever gives a decimal number that it has found to be read as the
magnitude, or the exact value of the magnitude, on the last grid.  So all that is
left to show is that the exact value is read as the magnitude.
-/

namespace Stepwise.Decimal

open Binary64 (units unitsInOne infiniteMagnitude)

variable {tie : Tie} {magnitude : Nat} {exponent : Int} {d : Decimal}

/-! ## The nearest number to a decimal number -/

theorem negative_nearest (negative : Bool) (d : Decimal) :
    (d.nearest negative).negative = negative := by
  rw [nearest]
  split
  · rfl
  · split
    · split <;> rfl
    · split <;> rfl

theorem magnitude_nearest (negative : Bool) (d : Decimal) :
    (d.nearest negative).magnitude = (d.nearest false).magnitude := by
  rw [nearest, nearest]
  split
  · rfl
  · split
    · split <;> rfl
    · split <;> rfl

theorem readsAs_iff : readsAs magnitude d = true ↔ (d.nearest false).magnitude = magnitude :=
  beq_iff_eq

/-! ## What the search gives -/

theorem readsAs_of_neighbour? (h : neighbour? tie magnitude exponent = some d) :
    readsAs magnitude d = true := by
  simp only [neighbour?] at h
  generalize stepsOn exponent (units magnitude) = steps at h
  obtain ⟨num, den⟩ := steps
  simp only at h
  split at h
  · next hlower hupper =>
    -- whichever of the two is nearer, both read back
    cases h
    rcases roundDiv_eq_or tie num den with heq | heq
    · rw [heq]
      exact hlower
    · rw [heq]
      exact hupper
  · next hlower _ =>
    cases h
    exact hlower
  · next _ hupper =>
    cases h
    exact hupper
  · cases h

theorem tenTo_pos (k : Nat) : 0 < tenTo k := Nat.pow_pos (by decide)

theorem readsAs_of_mul_eq {s k : Nat} (h : magnitude ≤ infiniteMagnitude) (hs : s ≠ 0)
    (hlog : 3 * (k + 1) < s.log2 + 1100)
    (hvalue : s * unitsInOne = units magnitude * tenTo (k + 1)) :
    readsAs magnitude ⟨s, .negSucc k⟩ = true := by
  have hnearest : nearest false ⟨s, .negSucc k⟩ =
      .ofRatio false (units magnitude * tenTo (k + 1)) (tenTo (k + 1)) := by
    simp only [nearest]
    rw [if_neg hs, if_neg (Nat.not_le.mpr hlog), hvalue]
  rw [readsAs_iff, hnearest]
  exact Binary64.magnitude_ofRatio_units h false (tenTo_pos _)

theorem mul_pow_five_mul_shiftLeft (n k : Nat) : n * Nat.pow 5 k * (1 <<< k) = n * tenTo k := by
  rw [Nat.one_shiftLeft, Nat.mul_assoc]
  exact congrArg (n * ·) (Nat.mul_pow 5 2 k).symm

theorem mul_pow_five_ne_zero {n : Nat} (hn : n ≠ 0) (k : Nat) : n * Nat.pow 5 k ≠ 0 :=
  Nat.mul_ne_zero hn (Nat.ne_of_gt (Nat.pow_pos (by decide)))

theorem two_mul_le_log2 {n : Nat} (hn : n ≠ 0) (k : Nat) :
    2 * k ≤ (n * Nat.pow 5 k).log2 := by
  rw [Nat.le_log2 (mul_pow_five_ne_zero hn k)]
  calc 2 ^ (2 * k) = (2 ^ 2) ^ k := Nat.pow_mul 2 2 k
    _ ≤ 5 ^ k := Nat.pow_le_pow_left (by decide) k
    _ ≤ n * 5 ^ k := Nat.le_mul_of_pos_left _ (Nat.pos_of_ne_zero hn)

/-- The last grid holds the exact value of every finite magnitude. -/
theorem readsAs_exact (hunits : units magnitude ≠ 0) (h : magnitude ≤ infiniteMagnitude) :
    readsAs magnitude ⟨units magnitude * Nat.pow 5 1074, -1074⟩ = true := by
  have hne := mul_pow_five_ne_zero hunits 1074
  have hlog := two_mul_le_log2 hunits 1074
  have hvalue := mul_pow_five_mul_shiftLeft (units magnitude) 1074
  exact readsAs_of_mul_eq (k := 1073) h hne (by omega) hvalue

theorem readsAs_shortestFrom (hunits : units magnitude ≠ 0) (h : magnitude ≤ infiniteMagnitude) :
    ∀ start, readsAs magnitude (shortestFrom tie magnitude start) = true
  | 0 => readsAs_exact hunits h
  | start + 1 => by
      rw [shortestFrom]
      split
      · next d hd => exact readsAs_of_neighbour? hd
      · exact readsAs_shortestFrom hunits h start

/-- The shortest decimal number is read as the number it is the shortest of. -/
theorem readsAs_shortest (h : magnitude ≤ infiniteMagnitude) :
    readsAs magnitude (shortest tie magnitude) = true := by
  rw [shortest]
  split
  · next hzero =>
    subst hzero
    rfl
  · next hpos => exact readsAs_shortestFrom (Binary64.units_ne_zero hpos) h _

end Stepwise.Decimal
