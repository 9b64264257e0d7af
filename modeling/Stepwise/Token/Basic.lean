import Stepwise.Operator

/-!
# Tokens

A token is a kind and a text.  The two are independent: nothing keeps an
operator token from holding a text that is no operator's symbol, and every
operation on tokens says what it does with such a one.
-/

namespace Stepwise

namespace Token

inductive Kind where
  /-- A literal, the value of a bound letter, or the result of a reduction. -/
  | number
  | operator
  | parenthesis
  /-- The message that stands in for the tokens of a rejected input. -/
  | error
deriving DecidableEq, Repr

end Token

/-- A unit of an expression. -/
structure Token where
  kind : Token.Kind
  text : String
deriving DecidableEq, Repr

namespace Token

/-! ## Building tokens -/

/-- A number token; nothing is asked of its text. -/
def number (text : String) : Token := ⟨.number, text⟩

/-- The token of an operator, with its symbol as text. -/
def operator (op : Operator) : Token := ⟨.operator, op.symbol⟩

def opening : Token := ⟨.parenthesis, "("⟩

def closing : Token := ⟨.parenthesis, ")"⟩

/-- The token that carries the message about a rejected input. -/
def error (message : String) : Token := ⟨.error, message⟩

/-! ## Telling tokens apart -/

def isNumber (t : Token) : Bool := t.kind == .number

/-- The token is of the kind of operators, whether or not it stands for one. -/
def isOperator (t : Token) : Bool := t.kind == .operator

/-- The token is of the kind of parentheses, whatever its text. -/
def isParenthesis (t : Token) : Bool := t.kind == .parenthesis

/-- The token opens a group. -/
def isOpening (t : Token) : Bool := t.isParenthesis && t.text == "("

/-- The token closes a group. -/
def isClosing (t : Token) : Bool := t.isParenthesis && t.text == ")"

/-- The operator a token stands for, if it is an operator token that holds an
operator's symbol. -/
def operator? (t : Token) : Option Operator :=
  if t.isOperator then Operator.ofSymbol? t.text else none

/-! ### What built tokens are -/

section Built

variable (text : String) (op : Operator)

@[simp] theorem isNumber_number : (number text).isNumber = true := rfl
@[simp] theorem isOperator_number : (number text).isOperator = false := rfl
@[simp] theorem isParenthesis_number : (number text).isParenthesis = false := rfl
@[simp] theorem isOpening_number : (number text).isOpening = false := rfl
@[simp] theorem isClosing_number : (number text).isClosing = false := rfl

@[simp] theorem isNumber_operator : (operator op).isNumber = false := rfl
@[simp] theorem isOperator_operator : (operator op).isOperator = true := rfl
@[simp] theorem isParenthesis_operator : (operator op).isParenthesis = false := rfl
@[simp] theorem isOpening_operator : (operator op).isOpening = false := rfl
@[simp] theorem isClosing_operator : (operator op).isClosing = false := rfl

@[simp] theorem isNumber_opening : opening.isNumber = false := rfl
@[simp] theorem isOperator_opening : opening.isOperator = false := rfl
@[simp] theorem isParenthesis_opening : opening.isParenthesis = true := rfl
@[simp] theorem isOpening_opening : opening.isOpening = true := rfl
@[simp] theorem isClosing_opening : opening.isClosing = false := rfl

@[simp] theorem isNumber_closing : closing.isNumber = false := rfl
@[simp] theorem isOperator_closing : closing.isOperator = false := rfl
@[simp] theorem isParenthesis_closing : closing.isParenthesis = true := rfl
@[simp] theorem isOpening_closing : closing.isOpening = false := rfl
@[simp] theorem isClosing_closing : closing.isClosing = true := rfl

@[simp] theorem text_number : (number text).text = text := rfl

@[simp] theorem operator?_operator : (operator op).operator? = some op :=
  Operator.ofSymbol?_symbol op

@[simp] theorem operator?_number : (number text).operator? = none := rfl

end Built

/-! ## Writing tokens -/

/-- The texts of the tokens with a space between neighbours. -/
def render (tokens : List Token) : String :=
  " ".intercalate (tokens.map text)

end Token
end Stepwise
