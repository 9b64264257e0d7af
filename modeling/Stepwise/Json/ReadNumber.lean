import Stepwise.Binary64.Arithmetic
import Stepwise.Json.ReadText

/-!
# Reading JSON numbers

The digits of a number are gathered into a significand of 64 bits; those that no
longer fit only count for its magnitude.  A number without a point and an
exponent is an integer if it fits.  Any other is computed from significand and
exponent by rounded multiplications or divisions with powers of ten, so it is
not always the nearest number to what is written.
-/

namespace Stepwise.Json

/-- A number as it is written. -/
inductive Numeral where
  | integer (n : Int)
  | real (x : Binary64)
deriving DecidableEq

namespace Numeral

/-- The binary64 number that a numeral stands for. -/
def value : Numeral → Binary64
  | .integer n => { Binary64.ofNat n.natAbs with negative := decide (n < 0) }
  | .real x => x

/-- What a numeral is called where another type is expected. -/
def found : Numeral → Found
  | .integer n => .integer n
  | .real x => .real x

end Numeral

/-! ## Gathering digits -/

/-- The largest significand, 2 ^ 64 - 1. -/
def maxSignificand : Nat := 0xffffffffffffffff

/-- The largest exponent that can be written, 2 ^ 31 - 1. -/
def maxExponent : Nat := 0x7fffffff

/-- Appends decimal digits to a number while it does not exceed `limit`, and
gives the digits from the first that would make it do so. -/
def gather (limit : Nat) : (start : Nat) → (digits : List Char) → Nat × List Char
  | start, [] => (start, [])
  | start, d :: ds =>
      let next := 10 * start + (d.toNat - '0'.toNat)
      if next ≤ limit then gather limit next ds else (start, d :: ds)

/-- A significand and the power of ten that scales it. -/
structure Scaled where
  significand : Nat
  exponent : Int

/-- The digits before the point, one at least and no zero in front of others. -/
def readWhole (cs : List Char) : Reading Scaled :=
  match cs.takeWhile Char.isDigit with
  | [] => .error (if cs.isEmpty then .here .endInValue [] else .into 1 .invalidNumber cs)
  | '0' :: _ :: _ => .error (.into 2 .invalidNumber cs)
  | digits =>
      let (significand, excess) := gather maxSignificand 0 digits
      .ok (⟨significand, excess.length⟩, cs.dropWhile Char.isDigit)

/-- The point and the digits behind it, one at least, if there is a point. -/
def readFraction (whole : Scaled) : List Char → Reading Scaled
  | '.' :: cs =>
      match cs.takeWhile Char.isDigit with
      | [] => .error (.into 1 (if cs.isEmpty then .endInValue else .invalidNumber) cs)
      | digits =>
          let (significand, excess) := gather maxSignificand whole.significand digits
          .ok (⟨significand, whole.exponent - (digits.length - excess.length)⟩,
            cs.dropWhile Char.isDigit)
  | cs => .ok (whole, cs)

/-- The exponent, if there is one.  One that is too large is a fault when it is
positive and the significand is not zero, right behind the digit that makes it
so; otherwise the number is zero. -/
def readExponent (n : Scaled) (cs : List Char) : Reading Scaled :=
  match cs with
  | mark :: rest =>
      if mark = 'e' || mark = 'E' then
        let (negative, cs) := Decimal.splitSign rest
        match cs.takeWhile Char.isDigit with
        | [] => .error (if cs.isEmpty then .here .endInValue [] else .into 1 .invalidNumber cs)
        | digits =>
            let rest := cs.dropWhile Char.isDigit
            match gather maxExponent 0 digits with
            | (size, []) =>
                let size : Int := if negative then -(size : Int) else size
                .ok (⟨n.significand, n.exponent + size⟩, rest)
            | (_, excess) =>
                if n.significand ≠ 0 && !negative then
                  .error (.into 1 .numberOutOfRange (excess ++ rest))
                else .ok (⟨0, 0⟩, rest)
      else .ok (n, cs)
  | [] => .ok (n, [])

/-! ## Scaling -/

/-- The largest power of ten that a scaling multiplies or divides by. -/
def maxPower : Nat := 308

/-- The binary64 number nearest to a power of ten. -/
def powerOfTen (k : Nat) : Binary64 := Decimal.nearest false ⟨1, k⟩

/-- Divides by ten to the `k`, in steps of at most `maxPower`. -/
def scaleDown (x : Binary64) (k : Nat) : Binary64 :=
  if k ≤ maxPower then x.div (powerOfTen k)
  else if x.isZero then x
  else scaleDown (x.div (powerOfTen maxPower)) (k - maxPower)
termination_by k
decreasing_by simp only [maxPower] at *; omega

/-- The value of a scaled significand, if it is finite. -/
def Scaled.value? (n : Scaled) : Option Binary64 :=
  let x := Binary64.ofNat n.significand
  match n.exponent with
  | .ofNat k =>
      if k ≤ maxPower then
        let y := x.mul (powerOfTen k)
        if y.isInfinite then none else some y
      else if x.isZero then some x
      else none
  | .negSucc k => some (scaleDown x (k + 1))

/-! ## Numbers -/

/-- The integer with this sign and size, if integers reach that far: from
-2 ^ 63 to 2 ^ 64 - 1.  Zero with a `-` is no integer. -/
def integer? (negative : Bool) (size : Nat) : Option Int :=
  if !negative then some size
  else if size ≠ 0 && size ≤ 0x8000000000000000 then some (-(size : Int))
  else none

/-- The significand and exponent of a number, and whether it has neither a point
nor a written exponent. -/
def readScaled (cs : List Char) : Reading (Scaled × Bool) :=
  match readWhole cs with
  | .error fault => .error fault
  | .ok (whole, afterWhole) =>
      match readFraction whole afterWhole with
      | .error fault => .error fault
      | .ok (fraction, afterFraction) =>
          match readExponent fraction afterFraction with
          | .error fault => .error fault
          | .ok (n, rest) => .ok ((n, rest.length == afterWhole.length), rest)

/-- The number from behind its sign. -/
def readUnsigned (negative : Bool) (cs : List Char) : Reading Numeral :=
  match readScaled cs with
  | .error fault => .error fault
  | .ok ((n, isWhole), rest) =>
      match if isWhole && n.exponent == 0 then integer? negative n.significand else none with
      | some i => .ok (.integer i, rest)
      | none =>
          match n.value? with
          | some x => .ok (.real { x with negative := negative }, rest)
          | none => .error (.here .numberOutOfRange rest)

/-- The number at the start of a text. -/
def readNumber : List Char → Reading Numeral
  | '-' :: cs => readUnsigned true cs
  | cs => readUnsigned false cs

/-! ## Reading does not lengthen the text -/

theorem length_readWhole_le {cs rest : List Char} {n : Scaled}
    (h : readWhole cs = .ok (n, rest)) : rest.length ≤ cs.length := by
  unfold readWhole at h
  split at h
  · cases h
  · cases h
  · cases h
    exact (List.dropWhile_sublist Char.isDigit).length_le

theorem length_readFraction_le {whole n : Scaled} {cs rest : List Char}
    (h : readFraction whole cs = .ok (n, rest)) : rest.length ≤ cs.length := by
  unfold readFraction at h
  split at h
  · next cs =>
    split at h
    · cases h
    · cases h
      have := (List.dropWhile_sublist Char.isDigit (l := cs)).length_le
      simp only [List.length_cons]; omega
  · cases h; exact Nat.le_refl _

theorem length_splitSign_le (cs : List Char) :
    (Decimal.splitSign cs).2.length ≤ cs.length := by
  unfold Decimal.splitSign
  split <;> simp

theorem length_readExponent_le {n m : Scaled} {cs rest : List Char}
    (h : readExponent n cs = .ok (m, rest)) : rest.length ≤ cs.length := by
  unfold readExponent at h
  split at h
  · next mark cs =>
    have hs := length_splitSign_le cs
    split at h
    · split at h
      next negative ds hd =>
      rw [hd] at hs
      have := (List.dropWhile_sublist Char.isDigit (l := ds)).length_le
      simp only at hs
      split at h
      · cases h
      · split at h
        · cases h; simp only [List.length_cons]; omega
        · split at h <;> cases h
          simp only [List.length_cons]; omega
    · cases h; exact Nat.le_refl _
  · cases h; exact Nat.le_refl _

theorem length_readScaled_le {cs rest : List Char} {n : Scaled × Bool}
    (h : readScaled cs = .ok (n, rest)) : rest.length ≤ cs.length := by
  unfold readScaled at h
  split at h
  · cases h
  · next hw =>
    split at h
    · cases h
    · next hf =>
      split at h
      · cases h
      · next he =>
        cases h
        exact Nat.le_trans (length_readExponent_le he)
          (Nat.le_trans (length_readFraction_le hf) (length_readWhole_le hw))

theorem length_readUnsigned_le {negative : Bool} {cs rest : List Char} {n : Numeral}
    (h : readUnsigned negative cs = .ok (n, rest)) : rest.length ≤ cs.length := by
  unfold readUnsigned at h
  split at h
  · cases h
  · next hs =>
    have hle := length_readScaled_le hs
    split at h
    · cases h; exact hle
    · split at h <;> cases h
      exact hle

theorem length_readNumber_le {cs rest : List Char} {n : Numeral}
    (h : readNumber cs = .ok (n, rest)) : rest.length ≤ cs.length := by
  unfold readNumber at h
  split at h
  · have := length_readUnsigned_le h
    simp only [List.length_cons]; omega
  · exact length_readUnsigned_le h

end Stepwise.Json
