import Stepwise.Decimal.Shortest

/-!
# The text of a number

A number is written positionally, with the fewest digits that read back and
never an exponent; of two such texts equally near, the greater in size is
written.  Reading accepts more than what is written: a sign `+`, an
exponent, a missing whole part, and the words for infinity and not-a-number in
any letter case.
-/

namespace Stepwise

namespace Decimal

/-! ## Writing -/

/-- The digits of a decimal number with `places` of them after the point, padded
on the left so that at least one stands before it. -/
def withPlaces (significand places : Nat) : List Char :=
  let digits := Nat.toDigits 10 significand
  let padded := List.replicate (places + 1 - digits.length) '0' ++ digits
  let whole := padded.length - places
  padded.take whole ++ '.' :: padded.drop whole

/-- A decimal number written without an exponent. -/
def positional (d : Decimal) : List Char :=
  match d.exponent with
  | .ofNat k => Nat.toDigits 10 d.significand ++ List.replicate k '0'
  | .negSucc k => withPlaces d.significand (k + 1)

/-! ## Reading -/

/-- A leading sign, and whether it is a `-`. -/
def splitSign : List Char → Bool × List Char
  | '-' :: cs => (true, cs)
  | '+' :: cs => (false, cs)
  | cs => (false, cs)

/-- The value of an exponent part, which may be absent. -/
def readExponent? : List Char → Option Int
  | [] => some 0
  | mark :: cs =>
      let (negative, digits) := splitSign cs
      if (mark == 'e' || mark == 'E') && !digits.isEmpty && digits.all Char.isDigit then
        let size := Nat.ofDigitChars 10 digits 0
        some (if negative then -(size : Int) else size)
      else none

/-- A number without its sign: digits on at least one side of an optional point,
then an optional exponent. -/
def read? (cs : List Char) : Option Decimal :=
  let whole := cs.takeWhile Char.isDigit
  let (fraction, rest) := match cs.dropWhile Char.isDigit with
    | '.' :: after => after.span Char.isDigit
    | other => ([], other)
  if whole.isEmpty && fraction.isEmpty then none
  else (readExponent? rest).map fun exponent =>
    ⟨Nat.ofDigitChars 10 (whole ++ fraction) 0, exponent - fraction.length⟩

end Decimal

namespace Binary64

/-- The characters of a number's text. -/
def toChars (x : Binary64) : List Char :=
  if x.isNaN then ['N', 'a', 'N']
  else
    let unsigned :=
      if x.isInfinite then ['i', 'n', 'f'] else (Decimal.shortest .up x.magnitude).positional
    if x.negative then '-' :: unsigned else unsigned

/-- The text of a number. -/
def toText (x : Binary64) : String := .ofList x.toChars

/-- The number whose text is `cs`; not-a-number if `cs` is no number's text. -/
def ofChars (cs : List Char) : Binary64 :=
  let (negative, unsigned) := Decimal.splitSign cs
  match Decimal.read? unsigned with
  | some d => d.nearest negative
  | none =>
      let word := unsigned.map Char.toLower
      if word = "inf".toList || word = "infinity".toList then infinity negative else nan

/-- The number a text stands for; not-a-number if it stands for none. -/
def ofText (text : String) : Binary64 := ofChars text.toList

end Binary64
end Stepwise
