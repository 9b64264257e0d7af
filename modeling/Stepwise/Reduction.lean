import Stepwise.Block
import Stepwise.Decimal.Text
import Stepwise.Error

/-!
# Reducing a block

Reducing collapses the tokens of a block to one number token, operator by
operator: all of one tier from left to right, tier after tier, powers included.
Operands are read from the texts of tokens and results are written back as
texts, which loses nothing of them.
-/

namespace Stepwise

namespace Operator

/-- The text of the operator's result on operands given as texts. -/
def applyText (op : Operator) (left right : String) : String :=
  (op.apply (.ofText left) (.ofText right)).toText

end Operator

namespace Reduction

/-- The token stands for an operator of the tier. -/
def operatorOf? (tier : Tier) (t : Token) : Option Operator :=
  t.operator?.filter fun op => op.tier = tier

/-- Reduces the operators of a tier from left to right; `done` holds the tokens
before `tokens`, the last one first.

An operator takes the tokens on either side of it as operands, whatever they
are, and the left one keeps its kind and receives the result.  An operator
without a token on one side stops the reduction; what has been reduced before it
stays so, and the tokens left are the error. -/
def reduceTier (tier : Tier) :
    (done : List Token) → (tokens : List Token) → Except (List Token) (List Token)
  | done, [] => .ok done.reverse
  | done, t :: rest =>
      match operatorOf? tier t with
      | none => reduceTier tier (t :: done) rest
      | some op =>
          match done, rest with
          | left :: before, right :: after =>
              let result := { left with text := op.applyText left.text right.text }
              reduceTier tier (result :: before) after
          | _, _ => .error (done.reverse ++ t :: rest)

/-- Reduces the operators of all tiers. -/
def reduceAll (tokens : List Token) : Except (List Token) (List Token) :=
  Tier.all.foldlM (fun tokens tier => reduceTier tier [] tokens) tokens

/-- The tokens without the parentheses around them, if both ends are
parentheses. -/
def unwrap (tokens : List Token) : List Token :=
  match tokens with
  | first :: rest =>
      if first.isParenthesis && rest.getLast?.any Token.isParenthesis then rest.dropLast
      else tokens
  | [] => []

/-- Reduces a block of `tokens` where it stands.  Gives the text of the token
that is left at its place, or why there is none, and the sequence after the
call, which a failure too may have changed. -/
def reduceBlock (tokens : List Token) (block : Block) :
    Except ReductionError String × List Token :=
  let before := tokens.take block.start
  let region := block.region tokens
  let after := (tokens.drop block.start).drop (block.stop - block.start)
  let failure := ReductionError.malformedBlock block.start block.stop
  match reduceAll (unwrap region) with
  | .ok [] => (.error failure, before ++ after)
  | .ok (result :: rest) => (.ok result.text, before ++ result :: rest ++ after)
  | .error left => (.error failure, before ++ left ++ after)

theorem reduceBlock_ok_ne_nil {tokens left : List Token} {block : Block} {result : String}
    (h : reduceBlock tokens block = (.ok result, left)) : left ≠ [] := by
  simp only [reduceBlock] at h
  split at h <;> cases h
  simp

end Reduction
end Stepwise
