import Stepwise.Decimal.Basic

/-!
# The shortest decimal number that reads back

The decimal numbers with a given exponent form a grid.  The coarsest grid that
holds a number which reads back as `x` holds the one with the fewest digits, and
on a grid only the two neighbours of `x` have to be tried: whatever reads back
lies in an interval around `x`, and if a point of the grid is in it, so is a
neighbour.  If both read back, the nearer one is taken; where `x` is midway
between them the digits depend on the tie rule, which is left to the text that
is written.
-/

namespace Stepwise.Decimal

/-- How many steps of the grid with this exponent make up `size` units, as a
ratio. -/
def stepsOn (exponent : Int) (size : Nat) : Nat × Nat :=
  match exponent with
  | .ofNat k => (size, Binary64.unitsInOne * tenTo k)
  | .negSucc k => (size * tenTo (k + 1), Binary64.unitsInOne)

/-- The number is read as the binary64 number of this magnitude. -/
def readsAs (magnitude : Nat) (d : Decimal) : Bool :=
  (d.nearest false).magnitude == magnitude

/-- The neighbour on the grid with this exponent that reads back, the nearer one
if both do. -/
def neighbour? (tie : Tie) (magnitude : Nat) (exponent : Int) : Option Decimal :=
  let (num, den) := stepsOn exponent (Binary64.units magnitude)
  let lower : Decimal := ⟨num / den, exponent⟩
  let upper : Decimal := ⟨num / den + 1, exponent⟩
  match readsAs magnitude lower, readsAs magnitude upper with
  | true, true => some ⟨roundDiv tie num den, exponent⟩
  | true, false => some lower
  | false, true => some upper
  | false, false => none

/-- The first neighbour that reads back, over the grids whose exponent is at
most `start - 1074`, coarsest first.  The last grid holds every finite value
exactly. -/
def shortestFrom (tie : Tie) (magnitude : Nat) : (start : Nat) → Decimal
  | 0 => ⟨Binary64.units magnitude * Nat.pow 5 1074, -1074⟩
  | start + 1 =>
      match neighbour? tie magnitude (start + 1 - 1074) with
      | some d => d
      | none => shortestFrom tie magnitude start

/-- How many digits the whole part of a magnitude has. -/
def wholeDigits (magnitude : Nat) : Nat :=
  (Nat.toDigits 10 (Binary64.units magnitude / Binary64.unitsInOne)).length

/-- The shortest decimal number that reads back as the finite number of this
magnitude, the nearest of those.  On a grid as coarse as a power of ten above
the value, that power is the only candidate, so the search starts there. -/
def shortest (tie : Tie) (magnitude : Nat) : Decimal :=
  if magnitude = 0 then ⟨0, 0⟩
  else shortestFrom tie magnitude (1074 + wholeDigits magnitude)

end Stepwise.Decimal
