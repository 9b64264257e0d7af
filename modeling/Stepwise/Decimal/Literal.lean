/-!
# Decimal literals

The only numbers that may be written in an expression: an optional `-`, one
digit or more, and optionally a point followed by any number of digits.  Digits
are `0` to `9`.
-/

namespace Stepwise.Decimal

/-- The text is a literal without a sign. -/
def isUnsignedLiteral (cs : List Char) : Bool :=
  match cs.takeWhile Char.isDigit, cs.dropWhile Char.isDigit with
  | [], _ => false
  | _, [] => true
  | _, '.' :: fraction => fraction.all Char.isDigit
  | _, _ => false

/-- The text is a literal. -/
def isLiteral : List Char → Bool
  | '-' :: cs => isUnsignedLiteral cs
  | cs => isUnsignedLiteral cs

end Stepwise.Decimal
