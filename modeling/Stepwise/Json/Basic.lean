import Stepwise.Json.Number

/-!
# JSON values and their text

The text is compact: no blanks, members in the order given.
-/

namespace Stepwise

/-- A JSON value.  Counts and numbers are apart because they are written
differently: a count has no point. -/
inductive Json where
  | bool (b : Bool)
  | count (n : Nat)
  | number (x : Binary64)
  | text (s : String)
  | array (items : List Json)
  | object (members : List (String × Json))

namespace Json

/-! ## Texts -/

/-- The escape of a character that may not stand in a text as it is: quotes,
backslashes and what lies below the space. -/
def escape (c : Char) : List Char :=
  if c = '"' then ['\\', '"']
  else if c = '\\' then ['\\', '\\']
  else if c = '\x08' then ['\\', 'b']
  else if c = '\x0c' then ['\\', 'f']
  else if c = '\n' then ['\\', 'n']
  else if c = '\r' then ['\\', 'r']
  else if c = '\t' then ['\\', 't']
  else if c.toNat < 32 then
    ['\\', 'u', '0', '0', (c.toNat / 16).digitChar, (c.toNat % 16).digitChar]
  else [c]

/-- A text in quotes. -/
def quote (cs : List Char) : List Char := '"' :: cs.flatMap escape ++ ['"']

/-! ## Values -/

mutual

/-- The text of a value. -/
def render : Json → List Char
  | .bool true => ['t', 'r', 'u', 'e']
  | .bool false => ['f', 'a', 'l', 's', 'e']
  | .count n => Nat.toDigits 10 n
  | .number x => ofNumber x
  | .text s => quote s.toList
  | .array items => '[' :: renderItems items ++ [']']
  | .object members => '{' :: renderMembers members ++ ['}']

/-- The items of an array with a comma between neighbours. -/
def renderItems : List Json → List Char
  | [] => []
  | [v] => render v
  | v :: w :: rest => render v ++ ',' :: renderItems (w :: rest)

/-- The members of an object with a comma between neighbours. -/
def renderMembers : List (String × Json) → List Char
  | [] => []
  | [(name, v)] => quote name.toList ++ ':' :: render v
  | (name, v) :: w :: rest =>
      quote name.toList ++ ':' :: render v ++ ',' :: renderMembers (w :: rest)

end

/-- The text of a value. -/
def toText (v : Json) : String := .ofList v.render

end Json
end Stepwise
