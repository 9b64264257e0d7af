import Stepwise.Decimal.Text
import Stepwise.Proofs.Binary64.Units
import Stepwise.Proofs.Decimal.Literal
import Mathlib.Data.List.TakeDrop
import Mathlib.Data.List.TakeWhile

/-!
# Positional texts

An unsigned literal denotes a decimal number: all its digits together, scaled
down by one ten for every digit of the fraction.  `Denotes` says so on the
shape of the text, without any search for where the digits end.

Two statements tie it to the program: the reader reads every literal as what it
denotes, and what is written for a decimal number is a literal that denotes it,
once its zeros are written out.
-/

namespace Stepwise.Decimal

open Binary64 (fractionBits unitsInOne)

variable {cs : List Char} {d : Decimal}

/-- The literal `cs` without a sign stands for `d`. -/
inductive Denotes : List Char → Decimal → Prop
  | intro {whole fraction : List Char} : whole ≠ [] → (∀ c ∈ whole, c.isDigit) →
      Fraction fraction → Denotes (whole ++ fraction)
        ⟨Nat.ofDigitChars 10 (whole ++ fraction.tail) 0, -fraction.tail.length⟩

theorem Denotes.unsigned (h : Denotes cs d) : Unsigned cs := by
  cases h with
  | intro hne hdigits hf => exact .intro hne hdigits hf

/-! ## Reading -/

theorem read?_of_denotes (h : Denotes cs d) : read? cs = some d := by
  cases h with
  | @intro whole fraction hne hdigits hf =>
      have hempty : whole.isEmpty = false := List.isEmpty_eq_false_iff.mpr hne
      simp only [read?, hf.takeWhile_append hdigits, hf.dropWhile_append hdigits, hempty,
        Bool.false_and]
      cases hf with
      | none => rfl
      | @point digits hall =>
          have hspan : digits.span Char.isDigit = (digits, []) := by
            rw [List.span_eq_takeWhile_dropWhile, List.takeWhile_eq_self_iff.mpr hall,
              List.dropWhile_eq_nil_iff.mpr hall]
          simp only [hspan]
          simp [readExponent?]

theorem splitSign_of_unsigned (h : Unsigned cs) : splitSign cs = (false, cs) := by
  obtain ⟨c, rest, rfl, hc⟩ := h.exists_cons
  unfold splitSign
  split
  · next heq =>
    cases heq
    exact absurd hc (by decide)
  · next heq =>
    cases heq
    exact absurd hc (by decide)
  · rfl

/-! ## Writing -/

/-- The zeros after the last digit written out. -/
def expand (d : Decimal) : Decimal :=
  match d.exponent with
  | .ofNat k => ⟨d.significand * tenTo k, 0⟩
  | .negSucc _ => d

theorem isDigit_of_mem_toDigits {n : Nat} : ∀ c ∈ Nat.toDigits 10 n, c.isDigit = true :=
  fun _ hc => Nat.isDigit_of_mem_toDigits (by decide) (by decide) hc

theorem isDigit_of_mem_zeros {k : Nat} : ∀ c ∈ List.replicate k '0', c.isDigit = true := by
  intro c hc
  rw [List.eq_of_mem_replicate hc]
  rfl

theorem ofDigitChars_zeros_append (k : Nat) (cs : List Char) :
    Nat.ofDigitChars 10 (List.replicate k '0' ++ cs) 0 = Nat.ofDigitChars 10 cs 0 := by
  rw [Nat.ofDigitChars_append, Nat.ofDigitChars_replicate_zero, Nat.mul_zero]

theorem ofDigitChars_append_zeros (n k : Nat) :
    Nat.ofDigitChars 10 (Nat.toDigits 10 n ++ List.replicate k '0') 0 = n * tenTo k := by
  rw [Nat.ofDigitChars_append, Nat.ofDigitChars_ten_toDigits, Nat.ofDigitChars_replicate_zero,
    Nat.mul_comm]
  rfl

theorem denotes_point (hdigits : ∀ c ∈ cs, c.isDigit) {k : Nat} (hk : k < cs.length) :
    Denotes (cs.take (cs.length - k) ++ '.' :: cs.drop (cs.length - k))
      ⟨Nat.ofDigitChars 10 cs 0, -k⟩ := by
  let size := cs.length - k
  have hne : cs.take size ≠ [] := by
    intro hnil
    have hlength := congrArg List.length hnil
    rw [List.length_take, List.length_nil] at hlength
    omega
  have hplaces : (cs.drop size).length = k := by
    rw [List.length_drop]
    omega
  have hfraction : Fraction ('.' :: cs.drop size) :=
    .point fun c hc => hdigits c (List.mem_of_mem_drop hc)
  have h := Denotes.intro hne (fun c hc => hdigits c (List.mem_of_mem_take hc)) hfraction
  rw [List.tail_cons, List.take_append_drop, hplaces] at h
  exact h

theorem denotes_withPlaces (significand k : Nat) :
    Denotes (withPlaces significand (k + 1)) ⟨significand, .negSucc k⟩ := by
  let digits := Nat.toDigits 10 significand
  let padded := List.replicate (k + 1 + 1 - digits.length) '0' ++ digits
  have hdigits : ∀ c ∈ padded, c.isDigit = true := by
    intro c hc
    rcases List.mem_append.mp hc with hzero | hdigit
    · exact isDigit_of_mem_zeros c hzero
    · exact isDigit_of_mem_toDigits c hdigit
  -- the padding leaves room for a digit before the point
  have hk : k + 1 < padded.length := by
    simp only [padded, List.length_append, List.length_replicate]
    omega
  have h := denotes_point hdigits hk
  rw [ofDigitChars_zeros_append, Nat.ofDigitChars_ten_toDigits] at h
  exact h

/-- What is written for a decimal number stands for it. -/
theorem denotes_positional (d : Decimal) : Denotes d.positional d.expand := by
  obtain ⟨significand, exponent⟩ := d
  cases exponent with
  | ofNat k =>
      have hne : Nat.toDigits 10 significand ++ List.replicate k '0' ≠ [] :=
        List.append_ne_nil_of_left_ne_nil Nat.toDigits_ne_nil _
      have hdigits : ∀ c ∈ Nat.toDigits 10 significand ++ List.replicate k '0',
          c.isDigit = true := by
        intro c hc
        rcases List.mem_append.mp hc with hdigit | hzero
        · exact isDigit_of_mem_toDigits c hdigit
        · exact isDigit_of_mem_zeros c hzero
      have h := Denotes.intro hne hdigits .none
      rw [List.append_nil, List.tail_nil, List.append_nil, ofDigitChars_append_zeros] at h
      exact h
  | negSucc k => exact denotes_withPlaces significand k

/-! ## Rounding once -/

theorem tenTo_le_tenTo {j k : Nat} (h : j ≤ k) : tenTo j ≤ tenTo k :=
  Nat.pow_le_pow_right (by decide) h

/-- At exponent 309 every positive number is beyond the finite binades. -/
theorem one_shiftLeft_le_of_le {significand k : Nat} (hs : significand ≠ 0) (hk : 309 ≤ k) :
    1 <<< (2047 + fractionBits) ≤ significand * tenTo k * unitsInOne :=
  calc 1 <<< (2047 + fractionBits) ≤ tenTo 309 * unitsInOne := by decide +kernel
    _ ≤ tenTo k * unitsInOne := Nat.mul_le_mul_right _ (tenTo_le_tenTo hk)
    _ ≤ significand * tenTo k * unitsInOne :=
      Nat.mul_le_mul_right _ (Nat.le_mul_of_pos_left _ (Nat.pos_of_ne_zero hs))

/-- Without a fraction the number is rounded once from its exact value, also where
the exponent is so large that the digits are not looked at. -/
theorem nearest_ofNat (negative : Bool) (significand k : Nat) :
    nearest negative ⟨significand, .ofNat k⟩ =
      .ofRatio negative (significand * tenTo k * unitsInOne) 1 := by
  simp only [nearest]
  split
  · next hzero =>
    rw [hzero, Nat.zero_mul, Nat.zero_mul]
    rfl
  · next hpos =>
    split
    · next hlarge =>
      have hle := one_shiftLeft_le_of_le hpos hlarge
      rw [← Nat.div_one (significand * tenTo k * unitsInOne)] at hle
      exact (Binary64.ofRatio_of_le hle negative).symm
    · rfl

theorem two_mul_lt_of_log2_le {significand k : Nat} (h : significand.log2 + 1100 ≤ 3 * k) :
    2 * (significand * unitsInOne) < tenTo k :=
  have hunits : 2 * (2 * unitsInOne) < 1 <<< 1100 := by decide +kernel
  calc 2 * (significand * unitsInOne) = significand * (2 * unitsInOne) := Nat.mul_left_comm ..
    _ ≤ 2 ^ (significand.log2 + 1) * (2 * unitsInOne) :=
      Nat.mul_le_mul_right _ (Nat.le_of_lt Nat.lt_log2_self)
    _ = 2 ^ significand.log2 * (2 * (2 * unitsInOne)) := by rw [Nat.pow_succ, Nat.mul_assoc]
    _ < 2 ^ significand.log2 * 1 <<< 1100 :=
      Nat.mul_lt_mul_of_pos_left hunits (Nat.two_pow_pos _)
    _ = 2 ^ (significand.log2 + 1100) := by rw [Nat.one_shiftLeft, Nat.pow_add]
    _ ≤ 2 ^ (3 * k) := Nat.pow_le_pow_right (by decide) h
    _ = 8 ^ k := Nat.pow_mul 2 3 k
    _ ≤ tenTo k := Nat.pow_le_pow_left (by decide) k

/-- With a fraction the number is rounded once from its exact value, also where there are
so many places that the digits are not looked at. -/
theorem nearest_negSucc (negative : Bool) (significand k : Nat) :
    nearest negative ⟨significand, .negSucc k⟩ =
      .ofRatio negative (significand * unitsInOne) (tenTo (k + 1)) := by
  have hzero : ∀ {num}, 2 * num < tenTo (k + 1) →
      Binary64.ofRatio negative num (tenTo (k + 1)) = .zero negative := by
    intro num h
    simp [Binary64.ofRatio, Binary64.nearestMagnitude_of_lt h, Binary64.saturate, Binary64.zero]
  simp only [nearest]
  split
  · next h =>
    rw [h, Nat.zero_mul]
    exact (hzero (Nat.pow_pos (by decide))).symm
  · split
    · next hsmall => exact (hzero (two_mul_lt_of_log2_le hsmall)).symm
    · rfl

theorem nearest_expand (negative : Bool) (d : Decimal) :
    d.expand.nearest negative = d.nearest negative := by
  obtain ⟨significand, exponent⟩ := d
  cases exponent with
  | ofNat k =>
      show nearest negative ⟨significand * tenTo k, .ofNat 0⟩ = _
      rw [nearest_ofNat, nearest_ofNat, show tenTo 0 = 1 from rfl, Nat.mul_one]
  | negSucc k => rfl

end Stepwise.Decimal
