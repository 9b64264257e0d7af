import Stepwise.Bindings.Basic
import Stepwise.Error
import Stepwise.Json.ReadMembers
import Stepwise.Text.WhiteSpace

/-!
# Bindings from JSON

Bindings are written as a JSON object of numbers.  A key that is not a single
letter can match no token and binds nothing, but its value has to be a number
all the same.
-/

namespace Stepwise.Bindings

/-- Binds the key of a member if it is a letter. -/
def insertMember (b : Bindings) (m : Json.Member) : Bindings :=
  match letter? m.1 with
  | some name => b.insert name m.2
  | none => b

/-- The bindings that the members of an object make, a later one in place of an
earlier one. -/
def ofMembers (members : List Json.Member) : Bindings := members.foldl insertMember empty

/-- The bindings written in a text, with white space around the object. -/
def ofJson (cs : List Char) : Except InputError Bindings :=
  let text := Text.trim cs
  match Json.readDocument text with
  | .ok members => .ok (ofMembers members)
  | .error fault => .error (.malformedBindings (fault.message text))

end Stepwise.Bindings
