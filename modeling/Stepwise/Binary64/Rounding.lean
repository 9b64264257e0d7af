import Stepwise.Binary64.Basic

/-!
# Rounding a ratio to the nearest binary64 number

Every operation on numbers, and every reading of a decimal text, is the exact
result rounded once.  The exact result is given as a ratio of natural numbers
counted in units of 2 ^ -1074, and one formula covers subnormals, the carry into
the next exponent and overflow.
-/

namespace Stepwise

/-- Where a value goes that lies midway between two neighbours. -/
inductive Tie where
  /-- To the greater one. -/
  | up
  /-- To the even one. -/
  | toEven
deriving DecidableEq, Repr

/-- Whether a value midway between `lower` and its successor goes to the
successor. -/
def Tie.takesUpper : Tie → (lower : Nat) → Bool
  | .up, _ => true
  | .toEven, lower => lower % 2 == 1

/-- The natural number nearest to `num / den`; of two equally near, the one that
`tie` says. -/
def roundDiv (tie : Tie) (num den : Nat) : Nat :=
  let whole := num / den
  let twice := 2 * (num % den)
  if den < twice || (twice == den && tie.takesUpper whole) then whole + 1 else whole

namespace Binary64

/-- How many bits of the ratio `num / den` lie below the last place of the
number that represents it: none up to 2 ^ 53 units, and one more with every
doubling after that. -/
def excessBits (num den : Nat) : Nat := (num / den).log2 - fractionBits

/-- The magnitude nearest to `num / den` units, as if there were no largest one.

With `k` excess bits the quotient by 2 ^ k is rounded to a significand, which
stands at `k * 2 ^ 52` among the magnitudes.  A significand that rounds up to
2 ^ 53 lands on the first magnitude of the next exponent, and the parity of a
magnitude is the parity of its significand, so a tie goes to the even one. -/
def nearestMagnitude (num den : Nat) : Nat :=
  let k := excessBits num den
  k * binadeSize + roundDiv .toEven num (den <<< k)

/-- The number nearest to `num / den` units, a tie going to the even one and
everything beyond the largest finite number by half a step to infinity. -/
def ofRatio (negative : Bool) (num den : Nat) : Binary64 :=
  saturate negative (nearestMagnitude num den)

/-- The number of units in one, 2 ^ 1074. -/
def unitsInOne : Nat := 1 <<< 1074

/-- The number nearest to a natural number. -/
def ofNat (n : Nat) : Binary64 := ofRatio false (n * unitsInOne) 1

end Binary64
end Stepwise
