import Stepwise.Bindings.Basic
import Stepwise.Lexeme
import Stepwise.Token.Basic

/-!
# The tokens of an expression text

Characters that touch make up one number token, whether they are a number or
not, and a blank ends it.  Two decisions need the context: a `-` is a sign of
the literal it touches or subtracts, and two `*` that touch are one operator.
-/

namespace Stepwise

/-- What stands before a place in the text, blanks aside. -/
inductive Context where
  | start
  /-- A text or a `)`: an operand has ended. -/
  | operand
  /-- Any other symbol: an operand is due. -/
  | operator
deriving DecidableEq, Repr

namespace Context

/-- The context a symbol leaves behind. -/
def after : Symbol → Context
  | .closing => .operand
  | _ => .operator

/-- The lexemes begin with a text whose first character is a digit. -/
def digitNext : List Lexeme → Bool
  | .text (c :: _) :: _ => c.isDigit
  | _ => false

/-- A `-` before `rest` is a sign: always at the start, never after an operand,
and after an operator if a digit touches it. -/
def takesSign (context : Context) (rest : List Lexeme) : Bool :=
  match context with
  | .start => true
  | .operand => false
  | .operator => digitNext rest

end Context

namespace Token

/-- The token of a symbol that stands for itself. -/
def ofSymbol : Symbol → Token
  | .plus => operator .add
  | .minus => operator .subtract
  | .star => operator .multiply
  | .slash => operator .divide
  | .percent => operator .remainder
  | .opening => opening
  | .closing => closing

/-- The number token of a run of characters, with the number of a bound letter
written out.  An empty run gives none. -/
def ofRun (b : Bindings) (run : List Char) : List Token :=
  if run.isEmpty then []
  else match b.resolve? run with
    | some value => [number value.toText]
    | none => [number (.ofList run)]

/-- The tokens of the lexemes that follow `context`, when the characters of
`run` have been read of the number token in progress. -/
def ofLexemes (b : Bindings) : Context → (run : List Char) → List Lexeme → List Token
  | _, run, [] => ofRun b run
  | _, run, .text cs :: rest => ofLexemes b .operand (run ++ cs) rest
  | context, run, .blank _ :: rest => ofRun b run ++ ofLexemes b context [] rest
  | context, run, .symbol .minus :: rest =>
      if context.takesSign rest then ofLexemes b .operator (run ++ ['-']) rest
      else ofRun b run ++ ofSymbol .minus :: ofLexemes b .operator [] rest
  | _, run, .symbol .star :: .symbol .star :: rest =>
      ofRun b run ++ operator .power :: ofLexemes b .operator [] rest
  | _, run, .symbol s :: rest =>
      ofRun b run ++ ofSymbol s :: ofLexemes b (.after s) [] rest

/-- The tokens of an expression text. -/
def ofText (b : Bindings) (text : String) : List Token :=
  ofLexemes b .start [] (Lexeme.scan text.toList)

end Token
end Stepwise
