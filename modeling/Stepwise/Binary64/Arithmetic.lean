import Stepwise.Binary64.Rounding

/-!
# Arithmetic on binary64 numbers

Each operation is the exact result on units, rounded once, with the usual rules
for zeros, infinities and not-a-number.  Raising to a power is the one operation
that is not the nearest number to its exact result, and is left to the
machine's.
-/

namespace Stepwise.Binary64

/-- The magnitude of a finite number in units of 2 ^ -1074. -/
def size (x : Binary64) : Nat := units x.magnitude

/-- The value of a finite number in units of 2 ^ -1074, with its sign. -/
def toInt (x : Binary64) : Int := if x.negative then -(x.size : Int) else x.size

/-- The number of the opposite sign. -/
def neg (x : Binary64) : Binary64 := { x with negative := !x.negative }

/-- The sum.  An exact zero is negative only if both terms are negative zeros. -/
def add (x y : Binary64) : Binary64 :=
  if x.isNaN || y.isNaN then nan
  else if x.isInfinite then
    if y.isInfinite && x.negative != y.negative then nan else x
  else if y.isInfinite then y
  else
    let sum := x.toInt + y.toInt
    if sum = 0 then zero (x.negative && y.negative)
    else ofRatio (decide (sum < 0)) sum.natAbs 1

def sub (x y : Binary64) : Binary64 := x.add y.neg

def mul (x y : Binary64) : Binary64 :=
  let negative := x.negative != y.negative
  if x.isNaN || y.isNaN then nan
  else if x.isInfinite || y.isInfinite then
    if x.isZero || y.isZero then nan else infinity negative
  else ofRatio negative (x.size * y.size) unitsInOne

/-- The quotient.  A division by zero is infinite, or not-a-number for `0 / 0`. -/
def div (x y : Binary64) : Binary64 :=
  let negative := x.negative != y.negative
  if x.isNaN || y.isNaN then nan
  else if x.isInfinite then
    if y.isInfinite then nan else infinity negative
  else if y.isInfinite then zero negative
  else if y.isZero then
    if x.isZero then nan else infinity negative
  else ofRatio negative (x.size * unitsInOne) y.size

/-- The remainder of the division that rounds its quotient toward zero; it has
the sign of the dividend and needs no rounding. -/
def rem (x y : Binary64) : Binary64 :=
  if x.isNaN || y.isNaN || x.isInfinite || y.isZero then nan
  else if y.isInfinite then x
  else ofRatio x.negative (x.size % y.size) 1

/-- The power, as the machine computes it. -/
def pow (x y : Binary64) : Binary64 :=
  ofBits (Float.pow (.ofBits x.toBits) (.ofBits y.toBits)).toBits

end Stepwise.Binary64
