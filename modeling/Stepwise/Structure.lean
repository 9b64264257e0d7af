import Stepwise.Decimal.Literal
import Stepwise.Error
import Stepwise.Token.Basic

/-!
# The structure of an expression

A token sequence is an expression when operands and operators alternate, an
operand being a literal or an expression in parentheses.  The check looks only
at single tokens, neighbours and a nesting depth; of several faults it reports
the first in a fixed order.
-/

namespace Stepwise.Structure

def neighbours (tokens : List Token) : List (Token × Token) := tokens.zip tokens.tail

/-! ## Single tokens -/

def emptyFault? (tokens : List Token) : Option InputError :=
  if tokens.isEmpty then some .emptyExpression else none

/-- The first number token that holds no literal. -/
def numberFault? (tokens : List Token) : Option InputError :=
  (tokens.find? fun t => t.isNumber && !Decimal.isLiteral t.text.toList).map
    fun t => .notANumber t.text

/-- An operator at either end. -/
def edgeFault? (tokens : List Token) : Option InputError :=
  if tokens.head?.any Token.isOperator then some .operatorFirst
  else if tokens.getLast?.any Token.isOperator then some .operatorLast
  else none

/-! ## Parentheses -/

/-- Every `)` closes one of `depth` groups open before or of those opened since,
and all of them are closed. -/
def isBalanced : (depth : Nat) → List Token → Bool
  | depth, [] => depth == 0
  | depth, t :: rest =>
      if t.isOpening then isBalanced (depth + 1) rest
      else if t.isClosing then depth != 0 && isBalanced (depth - 1) rest
      else isBalanced depth rest

/-- An odd number of parentheses, or parentheses that do not match. -/
def parenthesisFault? (tokens : List Token) : Option InputError :=
  if tokens.countP Token.isParenthesis % 2 = 1 then some .oddParentheses
  else if isBalanced 0 tokens then none
  else some .unbalancedParentheses

/-! ## Neighbours -/

/-- Two operators are neighbours. -/
def operatorFault? (tokens : List Token) : Option InputError :=
  if (neighbours tokens).any fun (left, right) => left.isOperator && right.isOperator then
    some .misplacedOperator
  else none

/-- An operand ends with the token: a literal or a group. -/
def endsOperand (t : Token) : Bool := t.isNumber || t.isClosing

/-- An operand begins with the token: a literal or a group. -/
def beginsOperand (t : Token) : Bool := t.isNumber || t.isOpening

/-- What is wrong with two tokens next to each other, two operators aside. -/
def pairFault? : Token × Token → Option InputError
  | (left, right) =>
      if left.isOpening && right.isClosing then some .emptyParentheses
      else if left.isOpening && right.isOperator || left.isOperator && right.isClosing then
        some .misplacedOperator
      else if endsOperand left && beginsOperand right then
        some (.missingOperator left.text right.text)
      else none

/-! ## The check -/

/-- The first fault in the structure of a token sequence. -/
def fault? (tokens : List Token) : Option InputError :=
  (emptyFault? tokens).or <| (numberFault? tokens).or <| (edgeFault? tokens).or <|
    (operatorFault? tokens).or <| (parenthesisFault? tokens).or <|
      (neighbours tokens).findSome? pairFault?

end Stepwise.Structure
