/-!
# Why an input is rejected and why a reduction fails

Each cause is a constructor that carries what its message mentions.  The wording
is in one place for each kind.
-/

namespace Stepwise

/-- Why an input is no expression. -/
inductive InputError where
  | emptyExpression
  /-- A number token that holds no literal. -/
  | notANumber (text : String)
  | operatorFirst
  | operatorLast
  /-- An operator next to another one, after a `(` or before a `)`. -/
  | misplacedOperator
  | oddParentheses
  | unbalancedParentheses
  | emptyParentheses
  /-- Two operands, or a group and an operand, with nothing in between. -/
  | missingOperator (left right : String)
  /-- What follows the first comma does not bind letters to numbers. -/
  | malformedBindings (details : String)
deriving DecidableEq, Repr

def InputError.message : InputError → String
  | .emptyExpression => "Expression is empty."
  | .notANumber text => s!"Not a valid number. ({text})"
  | .operatorFirst => "Misplaced operator at first index."
  | .operatorLast => "Misplaced operator at last index."
  | .misplacedOperator => "Misplaced operator."
  | .oddParentheses => "Odd number of parenthesis."
  | .unbalancedParentheses => "Closing parenthesis ')' without a matching '('."
  | .emptyParentheses => "Empty parenthesis."
  | .missingOperator left right => s!"Missing operator between '{left}' and '{right}'."
  | .malformedBindings details => s!"Malformed variable bindings: {details}."

/-- Why a reduction fails. -/
inductive ReductionError where
  /-- There is no expression to reduce. -/
  | notParsed
  /-- A step left several tokens and removed none. -/
  | stalled (tokens : String)
  /-- A block is empty, or an operator in it lacks an operand. -/
  | malformedBlock (start stop : Nat)
deriving DecidableEq, Repr

def ReductionError.message : ReductionError → String
  | .notParsed => "Nothing to evaluate. Parse an expression first."
  | .stalled tokens => s!"Evaluation made no progress on: {tokens}."
  | .malformedBlock start stop => s!"Block {start}..{stop} cannot be reduced."

end Stepwise
