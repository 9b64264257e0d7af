/-!
# An expression and its bindings

Bindings may follow an expression after a comma.
-/

namespace Stepwise.Bindings

/-- The part before the first comma and, if there is one, the part after it. -/
def split (cs : List Char) : List Char × Option (List Char) :=
  match cs.dropWhile (· != ',') with
  | [] => (cs, none)
  | _ :: after => (cs.takeWhile (· != ','), some after)

end Stepwise.Bindings
