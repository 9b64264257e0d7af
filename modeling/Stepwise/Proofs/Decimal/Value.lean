import Stepwise.Proofs.Binary64.Rounds
import Stepwise.Proofs.Binary64.Text

/-!
# The value of a literal

A literal stands for a rational number, however many digits it has, and it is read as the
binary64 number that this rational number is rounded to.  Neither the check of literals nor
the reader knows of the other, and the reader's language is the larger one; they meet in
the shape of a literal, on which the rational number is read off.

The sign is kept apart from the rational number, because zero has one in binary64.
-/

namespace Stepwise

open Binary64 (Rounds signed ratio unitsInOne)

namespace Decimal

variable {cs : List Char} {d e : Decimal} {negative : Bool} {q : ℚ}

/-- The rational number that a decimal number is. -/
def toRat (d : Decimal) : ℚ := d.significand * 10 ^ d.exponent

/-- The literal `cs` stands for the rational number `q`, and it begins with a `-` if
`negative`. -/
inductive StandsFor : (cs : List Char) → (negative : Bool) → (q : ℚ) → Prop
  | positive {cs : List Char} {d : Decimal} : Denotes cs d → StandsFor cs false d.toRat
  | negative {cs : List Char} {d : Decimal} : Denotes cs d → StandsFor ('-' :: cs) true (-d.toRat)

/-! ## What literals stand for -/

theorem Denotes.unique (hd : Denotes cs d) (he : Denotes cs e) : d = e :=
  Option.some.inj ((read?_of_denotes hd).symm.trans (read?_of_denotes he))

theorem Unsigned.exists_denotes (h : Unsigned cs) : ∃ d, Denotes cs d := by
  cases h with
  | intro hne hdigits hf => exact ⟨_, .intro hne hdigits hf⟩

theorem Denotes.ne_sign (h : Denotes cs d) (rest : List Char) : cs ≠ '-' :: rest := by
  obtain ⟨c, more, rfl, hc⟩ := h.unsigned.exists_cons
  intro heq
  rw [(List.cons.inj heq).1] at hc
  exact absurd hc (by decide)

/-- The literals are the texts that stand for a number. -/
theorem literal_iff_exists_standsFor : Literal cs ↔ ∃ negative q, StandsFor cs negative q := by
  constructor
  · intro h
    cases h with
    | positive h =>
        obtain ⟨d, hd⟩ := h.exists_denotes
        exact ⟨false, _, .positive hd⟩
    | negative h =>
        obtain ⟨d, hd⟩ := h.exists_denotes
        exact ⟨true, _, .negative hd⟩
  · rintro ⟨negative, q, h⟩
    cases h with
    | positive hd => exact .positive hd.unsigned
    | negative hd => exact .negative hd.unsigned

theorem StandsFor.negative_iff (h : StandsFor cs negative q) :
    negative = true ↔ cs.head? = some '-' := by
  cases h with
  | positive hd =>
      obtain ⟨c, more, rfl, hc⟩ := hd.unsigned.exists_cons
      refine iff_of_false Bool.false_ne_true ?_
      intro hsign
      exact absurd (congrArg (· :: more) (Option.some.inj hsign)) (hd.ne_sign more)
  | negative _ => exact iff_of_true rfl rfl

/-! ## What they are read as -/

theorem cast_tenTo (k : Nat) : (tenTo k : ℚ) = 10 ^ k := by
  rw [tenTo, Nat.pow_eq, Nat.cast_pow, Nat.cast_ofNat]

theorem ratio_ofNat (significand k : Nat) :
    ratio (significand * tenTo k * unitsInOne) 1 = toRat ⟨significand, .ofNat k⟩ := by
  rw [ratio, Nat.cast_mul, Nat.cast_mul, cast_tenTo, Nat.cast_one, one_mul,
    mul_div_cancel_right₀ _ Binary64.unitsInOne_cast_pos.ne', toRat, Int.ofNat_eq_natCast,
    zpow_natCast]

theorem ratio_negSucc (significand k : Nat) :
    ratio (significand * unitsInOne) (tenTo (k + 1)) = toRat ⟨significand, .negSucc k⟩ := by
  rw [ratio, Nat.cast_mul, cast_tenTo, mul_div_mul_right _ _ Binary64.unitsInOne_cast_pos.ne',
    toRat, zpow_negSucc, div_eq_mul_inv]

/-- The binary64 number nearest to a decimal number is what its rational number is rounded
to, whatever its exponent. -/
theorem rounds_nearest (negative : Bool) (d : Decimal) :
    Rounds (signed negative d.toRat) (d.nearest negative) := by
  obtain ⟨significand, exponent⟩ := d
  cases exponent with
  | ofNat k =>
      rw [nearest_ofNat, ← ratio_ofNat]
      exact Binary64.rounds_ofRatio negative _ Nat.one_pos
  | negSucc k =>
      rw [nearest_negSucc, ← ratio_negSucc]
      exact Binary64.rounds_ofRatio negative _ (tenTo_pos (k + 1))

theorem StandsFor.rounds_ofChars (h : StandsFor cs negative q) :
    (Binary64.ofChars cs).negative = negative ∧ Rounds q (Binary64.ofChars cs) := by
  cases h with
  | positive hd =>
      have hread := ofChars_of_denotes hd false
      rw [if_neg Bool.false_ne_true] at hread
      rw [hread]
      exact ⟨negative_nearest false _, rounds_nearest false _⟩
  | negative hd =>
      have hread := ofChars_of_denotes hd true
      rw [if_pos rfl] at hread
      rw [hread]
      exact ⟨negative_nearest true _, rounds_nearest true _⟩

end Decimal

/-- What the check takes for a literal is of the shape `-?[0-9]+(\.[0-9]*)?` and the other
way round, and it is read at its exact value: as the one binary64 number with its sign that
the rational number of its digits is rounded to. -/
theorem Binary64.ofText_eq_iff_rounds (text : String) :
    (Decimal.isLiteral text.toList = true ↔ Decimal.Literal text.toList) ∧
      (Decimal.isLiteral text.toList = true →
        ∃ negative q, Decimal.StandsFor text.toList negative q ∧
          (negative = true ↔ text.toList.head? = some '-') ∧
          ∀ x, ofText text = x ↔ x.negative = negative ∧ Rounds q x) := by
  refine ⟨Decimal.isLiteral_iff, ?_⟩
  intro h
  obtain ⟨negative, q, hq⟩ := Decimal.literal_iff_exists_standsFor.mp (Decimal.isLiteral_iff.mp h)
  obtain ⟨hnegative, hrounds⟩ := hq.rounds_ofChars
  refine ⟨negative, q, hq, hq.negative_iff, ?_⟩
  intro x
  constructor
  · rintro rfl
    exact ⟨hnegative, hrounds⟩
  · rintro ⟨hx, hround⟩
    exact hrounds.unique hround (hnegative.trans hx.symm)

end Stepwise
