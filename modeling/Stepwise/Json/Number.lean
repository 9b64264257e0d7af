import Stepwise.Decimal.Text

/-!
# Numbers in JSON

A value is written with the fewest digits that read back; of two such texts
equally near, the one whose last digit is even.  Between 10 ^ -5 and 10 ^ 16 it
is positional and always has a point; elsewhere it has an exponent with a sign.
JSON has no text for infinity and not-a-number, which are written `null`.
-/

namespace Stepwise.Json

/-- The power of ten of a decimal number's first digit. -/
def leadingExponent (d : Decimal) : Int :=
  (Nat.toDigits 10 d.significand).length - 1 + d.exponent

/-- The first digit, the others after a point if there are any, and the power of
ten of the first. -/
def scientific (d : Decimal) : List Char :=
  let exponent := leadingExponent d
  let mantissa := match Nat.toDigits 10 d.significand with
    | first :: second :: more => first :: '.' :: second :: more
    | digits => digits
  mantissa ++ 'e' :: (if exponent < 0 then '-' else '+') :: Nat.toDigits 10 exponent.natAbs

/-- The decimal number without an exponent and with a point. -/
def positional (d : Decimal) : List Char :=
  if d.exponent < 0 then d.positional else d.positional ++ ['.', '0']

/-- The text of a decimal number. -/
def ofDecimal (d : Decimal) : List Char :=
  let exponent := leadingExponent d
  if -5 ≤ exponent && exponent ≤ 15 then positional d else scientific d

def ofNumber (x : Binary64) : List Char :=
  if !x.isFinite then ['n', 'u', 'l', 'l']
  else
    let unsigned := ofDecimal (Decimal.shortest .toEven x.magnitude)
    if x.negative then '-' :: unsigned else unsigned

end Stepwise.Json
