import Stepwise.Bindings.OfJson
import Stepwise.Bindings.Split
import Stepwise.Expression

/-!
# Expressions with their bindings

An input is an expression text, optionally followed by a comma and bindings.
-/

namespace Stepwise

namespace Bindings

/-- The bindings that follow an expression; none if nothing follows it. -/
def ofSuffix : Option (List Char) → Except InputError Bindings
  | none => .ok empty
  | some cs => ofJson cs

end Bindings

namespace Expression

/-- The expression an input stands for.  Faults in the bindings are reported
before those in the expression. -/
def parse (input : String) : Except InputError Expression :=
  let (text, suffix) := Bindings.split input.toList
  match Bindings.ofSuffix suffix with
  | .error reason => .error reason
  | .ok b => (parseWith b (.ofList text)).map fun e => { e with source := input }

/-- Why an input has no value. -/
inductive Failure where
  | input (reason : InputError)
  | reduction (failure : ReductionError)
deriving DecidableEq

def evaluate (input : String) : Except Failure Binary64 :=
  match parse input with
  | .error reason => .error (.input reason)
  | .ok e =>
      match e.evaluateAll.1 with
      | .error failure => .error (.reduction failure)
      | .ok outcome => .ok outcome.value

end Expression
end Stepwise
