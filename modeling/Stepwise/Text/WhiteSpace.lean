/-!
# White space

The characters with the Unicode property White_Space, and texts without them at
their ends.
-/

namespace Stepwise.Text

/-- A character with the Unicode property White_Space.  The byte order mark and
the zero-width spaces do not have it. -/
def isWhiteSpace (c : Char) : Bool :=
  let n := c.toNat
  (0x09 ≤ n && n ≤ 0x0d) || n == 0x20 || n == 0x85 || n == 0xa0 || n == 0x1680 ||
    (0x2000 ≤ n && n ≤ 0x200a) || n == 0x2028 || n == 0x2029 || n == 0x202f ||
    n == 0x205f || n == 0x3000

/-- The text without white space at its start. -/
def trimStart (cs : List Char) : List Char := cs.dropWhile isWhiteSpace

/-- The text without white space at its ends. -/
def trim (cs : List Char) : List Char := (trimStart (trimStart cs).reverse).reverse

end Stepwise.Text
