/-!
# Binary64 numbers

A number is a sign and a *magnitude*: the 63 bits below the sign bit, read as a
natural number.  Magnitudes are ordered like the values they stand for, so the
next larger value is the next larger magnitude; above the finite ones stands
infinity, and above it the magnitudes that are not a number.

Every finite value is a whole multiple of the least positive one, 2 ^ -1074.
`units` is that multiple.  All exact reasoning about values is done on units,
in the natural numbers.
-/

namespace Stepwise

/-- A binary64 number: its sign bit and the 63 bits below it. -/
structure Binary64 where
  negative : Bool
  magnitude : Nat
  magnitude_lt : magnitude < 0x8000000000000000
deriving DecidableEq

namespace Binary64

/-! ## Magnitudes -/

def fractionBits : Nat := 52

/-- The number of magnitudes with one exponent, 2 ^ 52.  It is also the value of
the one that leads the fraction of a normal number. -/
def binadeSize : Nat := 0x10000000000000

/-- The magnitude of the infinities: every bit of the exponent set and none of
the fraction.  Smaller magnitudes are finite values, larger ones are not a
number. -/
def infiniteMagnitude : Nat := 0x7ff0000000000000

/-- The value of a magnitude in units of 2 ^ -1074.  Below 2 ^ 52 (zero and the
subnormals) it is the magnitude itself; above, the fraction with its leading
one, shifted by the exponent. -/
def units (magnitude : Nat) : Nat :=
  if magnitude < binadeSize then magnitude
  else (binadeSize + magnitude % binadeSize) <<< (magnitude / binadeSize - 1)

/-- The number with this sign whose magnitude is `magnitude`, or infinite if
that is beyond the finite ones. -/
def saturate (negative : Bool) (magnitude : Nat) : Binary64 where
  negative := negative
  magnitude := min magnitude infiniteMagnitude
  magnitude_lt := Nat.lt_of_le_of_lt (Nat.min_le_right ..) (by decide)

def zero (negative : Bool) : Binary64 := ⟨negative, 0, by decide⟩

def infinity (negative : Bool) : Binary64 := ⟨negative, infiniteMagnitude, by decide⟩

/-- The not-a-number that invalid operations give. -/
def nan : Binary64 := ⟨false, 0x7ff8000000000000, by decide⟩

/-! ## Classes of numbers -/

/-- The number is a value: neither infinite nor not-a-number. -/
def isFinite (x : Binary64) : Bool := x.magnitude < infiniteMagnitude

def isInfinite (x : Binary64) : Bool := x.magnitude = infiniteMagnitude

def isNaN (x : Binary64) : Bool := infiniteMagnitude < x.magnitude

/-- The number is a zero, of either sign. -/
def isZero (x : Binary64) : Bool := x.magnitude = 0

/-- Equality of values: the two zeros are equal, and not-a-number equals
nothing, itself included. -/
def sameValue (x y : Binary64) : Bool :=
  !x.isNaN && !y.isNaN && (x == y || (x.isZero && y.isZero))

/-! ## Bit patterns -/

/-- The 64 bits of a number, the sign first. -/
def toBits (x : Binary64) : UInt64 :=
  .ofNat ((if x.negative then 0x8000000000000000 else 0) + x.magnitude)

/-- The number with these 64 bits. -/
def ofBits (bits : UInt64) : Binary64 where
  negative := 0x8000000000000000 ≤ bits.toNat
  magnitude := bits.toNat % 0x8000000000000000
  magnitude_lt := Nat.mod_lt _ (by decide)

theorem toBits_ofBits (bits : UInt64) : (ofBits bits).toBits = bits := by
  apply UInt64.toNat_inj.mp
  have h := bits.toNat_lt
  simp only [ofBits, toBits, UInt64.toNat_ofNat', decide_eq_true_eq]
  split <;> omega

end Binary64
end Stepwise
