import Stepwise.Binary64.Rounding

/-!
# Decimal numbers

A significand times a power of ten, and the binary64 number nearest to it.
-/

namespace Stepwise

/-- The number `significand * 10 ^ exponent`. -/
structure Decimal where
  significand : Nat
  exponent : Int
deriving DecidableEq, Repr

namespace Decimal

/-- Ten to the `k`. -/
def tenTo (k : Nat) : Nat := Nat.pow 10 k

/-- The binary64 number nearest to a decimal number, a tie going to the even
one.

Where the answer cannot depend on the digits, no power of ten is computed: at
exponent 309 every positive number is infinite, and with `log2` the binary
logarithm of the significand, `log2 + 1100 ≤ 3 * k` puts the number below
2 ^ -1099, under half of the least positive one. -/
def nearest (negative : Bool) (d : Decimal) : Binary64 :=
  if d.significand = 0 then .zero negative
  else match d.exponent with
    | .ofNat k =>
        if 309 ≤ k then .infinity negative
        else .ofRatio negative (d.significand * tenTo k * Binary64.unitsInOne) 1
    | .negSucc k =>
        if d.significand.log2 + 1100 ≤ 3 * (k + 1) then .zero negative
        else .ofRatio negative (d.significand * Binary64.unitsInOne) (tenTo (k + 1))

end Decimal
end Stepwise
