import Stepwise.Decimal.Text
import Stepwise.Proofs.Decimal.Positional
import Stepwise.Proofs.Decimal.Shortest

/-!
# Text and number

Every number that an evaluation passes from one step to the next passes as a
text.  Nothing is lost on the way: a text of digits is read as the number nearest
to what it denotes, and what is written for a finite number denotes a decimal
number that is nearest to it.

The main statement is about bit patterns, so it tells the two zeros apart and
leaves out no subnormal number; of a not-a-number only that it is none is kept.
-/

namespace Stepwise

namespace Decimal

variable {cs : List Char} {d : Decimal}

theorem ofChars_of_denotes (h : Denotes cs d) (negative : Bool) :
    Binary64.ofChars (if negative then '-' :: cs else cs) = d.nearest negative := by
  have hread := read?_of_denotes h
  cases negative with
  | true => simp only [if_true, Binary64.ofChars, splitSign, hread]
  | false =>
      have hsign := splitSign_of_unsigned h.unsigned
      simp only [Bool.false_eq_true, if_false, Binary64.ofChars, hsign, hread]

theorem ofChars_positional (negative : Bool) (d : Decimal) :
    Binary64.ofChars (if negative then '-' :: d.positional else d.positional) =
      d.nearest negative := by
  rw [ofChars_of_denotes (denotes_positional d), nearest_expand]

theorem nearest_shortest (tie : Tie) (x : Binary64)
    (h : x.magnitude ≤ Binary64.infiniteMagnitude) :
    (shortest tie x.magnitude).nearest x.negative = x := by
  have hreads : readsAs x.magnitude (shortest tie x.magnitude) = true := readsAs_shortest h
  have hmagnitude := readsAs_iff.mp hreads
  rw [← magnitude_nearest x.negative] at hmagnitude
  exact Binary64.eq_of_magnitude_eq (negative_nearest x.negative _) hmagnitude

end Decimal

namespace Binary64

theorem ofChars_infinity (negative : Bool) :
    ofChars (infinity negative).toChars = infinity negative := by
  cases negative with
  | true => rfl
  | false => rfl

/-- Apart from not-a-number, a number is what its text is read as. -/
theorem ofChars_toChars (x : Binary64) (h : x.isNaN = false) : ofChars x.toChars = x := by
  by_cases hinfinite : x.isInfinite = true
  · have hx : x = infinity x.negative := by
      obtain ⟨negative, magnitude, hlt⟩ := x
      cases of_decide_eq_true hinfinite
      rfl
    rw [hx]
    exact ofChars_infinity x.negative
  · have hle : x.magnitude ≤ infiniteMagnitude := Nat.not_lt.mp (of_decide_eq_false h)
    have hchars : x.toChars =
        let unsigned := (Decimal.shortest .up x.magnitude).positional
        if x.negative then '-' :: unsigned else unsigned := by
      simp only [toChars, h, hinfinite, Bool.false_eq_true, if_false]
    rw [hchars, Decimal.ofChars_positional, Decimal.nearest_shortest .up x hle]

theorem toChars_of_isFinite {x : Binary64} (h : x.isFinite = true) :
    x.toChars = (if x.negative then ['-'] else []) ++
      (Decimal.shortest .up x.magnitude).positional := by
  simp only [toChars, isNaN_eq_false_of_isFinite h, isInfinite_eq_false_of_isFinite h,
    Bool.false_eq_true, if_false]
  cases x.negative <;> rfl

theorem literal_toChars {x : Binary64} (h : x.isFinite = true) : Decimal.Literal x.toChars := by
  have hunsigned := (Decimal.denotes_positional (Decimal.shortest .up x.magnitude)).unsigned
  rw [toChars_of_isFinite h]
  split
  · exact .negative hunsigned
  · exact .positive hunsigned

/-- A number that is not finite is written as one of three words. -/
theorem toText_of_not_isFinite {x : Binary64} (h : x.isFinite = false) :
    x.toText = "NaN" ∨ x.toText = "inf" ∨ x.toText = "-inf" := by
  have hle : infiniteMagnitude ≤ x.magnitude := Nat.not_lt.mp (of_decide_eq_false h)
  simp only [toText, toChars]
  cases hnan : x.isNaN with
  | true => exact .inl rfl
  | false =>
      have hge : x.magnitude ≤ infiniteMagnitude := Nat.not_lt.mp (of_decide_eq_false hnan)
      have hinfinite : x.isInfinite = true := decide_eq_true (Nat.le_antisymm hge hle)
      rw [hinfinite]
      cases x.negative with
      | true => exact .inr (.inr rfl)
      | false => exact .inr (.inl rfl)

/-- The text of a number is read as the same 64 bits, and the text of a
not-a-number as a not-a-number. -/
theorem ofText_toText (bits : UInt64) :
    if (ofBits bits).isNaN then (ofText (ofBits bits).toText).isNaN = true
    else (ofText (ofBits bits).toText).toBits = bits := by
  generalize hx : ofBits bits = x
  have htext : ofText x.toText = ofChars x.toChars := by
    rw [ofText, toText, String.toList_ofList]
  rw [htext]
  split
  · next hnan =>
    have hchars : x.toChars = ['N', 'a', 'N'] := by rw [toChars, if_pos hnan]
    rw [hchars]
    rfl
  · next hnumber =>
    rw [ofChars_toChars x (Bool.eq_false_iff.mpr hnumber), ← hx]
    exact toBits_ofBits bits

end Binary64
end Stepwise
