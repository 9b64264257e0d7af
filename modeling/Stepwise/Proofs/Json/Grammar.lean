import Stepwise.Proofs.Decimal.Readable
import Stepwise.Proofs.Json.Document

/-!
# JSON texts

What a JSON text says is a tree: `null`, truth values, decimal numbers with a sign, texts, and
arrays and objects of these.  `Shows` says of a text which tree it shows, in all the ways that
JSON has: numbers with places and exponents, texts with any escapes, white space anywhere
between the parts, and names that come more than once.  A number is what its digits say; nothing
is rounded here.

The three kinds of parts, a value, the items of an array and the members of an object, are
defined together, with one index for which of them it is, so that there is one induction for
all of them.
-/

namespace Stepwise.Json

open Decimal (Scale)

/-- What a JSON text says. -/
inductive Tree where
  | null
  | bool (b : Bool)
  | number (negative : Bool) (d : Decimal)
  | text (s : String)
  | array (items : List Tree)
  | object (members : List (String × Tree))

/-- The ways to write a number without its sign:
`(0|[1-9][0-9]*)(\.[0-9]+)?([eE][+-]?[0-9]+)?`. -/
inductive ShowsUnsigned : Decimal → List Char → Prop
  | intro {whole fraction scale : List Char} {exponent : Int} : Whole whole → Places fraction →
      Scale scale exponent → ShowsUnsigned
        ⟨Nat.ofDigitChars 10 (whole ++ fraction.tail) 0, exponent - fraction.tail.length⟩
        (whole ++ (fraction ++ scale))

/-- The ways to write a number. -/
inductive ShowsNumber : (negative : Bool) → Decimal → List Char → Prop
  | positive {d : Decimal} {cs : List Char} : ShowsUnsigned d cs → ShowsNumber false d cs
  | negative {d : Decimal} {cs : List Char} : ShowsUnsigned d cs → ShowsNumber true d ('-' :: cs)

/-- The ways to write the name of a member, up to its colon. -/
inductive ShowsName : (name : String) → List Char → Prop
  | intro {name : String} {gap spelled gap' : List Char} : Gap gap → Spells name.toList spelled →
      Gap gap' → ShowsName name (gap ++ '"' :: (spelled ++ '"' :: (gap' ++ [':'])))

/-- What is written: a value, or what stands between the brackets of one. -/
inductive Part where
  | value (v : Tree)
  | items (vs : List Tree)
  | members (ms : List (String × Tree))

/-- The ways to write a part; items and members are one at least. -/
inductive Shows : Part → List Char → Prop
  | null : Shows (.value .null) ['n', 'u', 'l', 'l']
  | isTrue : Shows (.value (.bool true)) ['t', 'r', 'u', 'e']
  | isFalse : Shows (.value (.bool false)) ['f', 'a', 'l', 's', 'e']
  | number {negative : Bool} {d : Decimal} {cs : List Char} : ShowsNumber negative d cs →
      Shows (.value (.number negative d)) cs
  | text {s : String} {cs : List Char} : Spells s.toList cs →
      Shows (.value (.text s)) ('"' :: (cs ++ ['"']))
  | emptyArray {gap : List Char} : Gap gap → Shows (.value (.array [])) ('[' :: (gap ++ [']']))
  | array {vs : List Tree} {cs : List Char} : Shows (.items vs) cs →
      Shows (.value (.array vs)) ('[' :: (cs ++ [']']))
  | emptyObject {gap : List Char} : Gap gap → Shows (.value (.object [])) ('{' :: (gap ++ ['}']))
  | object {ms : List (String × Tree)} {cs : List Char} : Shows (.members ms) cs →
      Shows (.value (.object ms)) ('{' :: (cs ++ ['}']))
  | lastItem {v : Tree} {gap cs gap' : List Char} : Gap gap → Shows (.value v) cs → Gap gap' →
      Shows (.items [v]) (gap ++ (cs ++ gap'))
  | item {v : Tree} {vs : List Tree} {gap cs gap' more : List Char} : Gap gap →
      Shows (.value v) cs → Gap gap' → Shows (.items vs) more →
      Shows (.items (v :: vs)) (gap ++ (cs ++ (gap' ++ ',' :: more)))
  | lastMember {name : String} {v : Tree} {front gap cs gap' : List Char} : ShowsName name front →
      Gap gap → Shows (.value v) cs → Gap gap' →
      Shows (.members [(name, v)]) (front ++ (gap ++ (cs ++ gap')))
  | member {name : String} {v : Tree} {ms : List (String × Tree)}
      {front gap cs gap' more : List Char} : ShowsName name front → Gap gap →
      Shows (.value v) cs → Gap gap' → Shows (.members ms) more →
      Shows (.members ((name, v) :: ms)) (front ++ (gap ++ (cs ++ (gap' ++ ',' :: more))))

/-- The texts of a tree, with white space around it. -/
inductive IsText : (v : Tree) → List Char → Prop
  | intro {v : Tree} {gap cs gap' : List Char} : Gap gap → Shows (.value v) cs → Gap gap' →
      IsText v (gap ++ (cs ++ gap'))

end Stepwise.Json
