import Stepwise.Reduction
import Stepwise.Structure
import Stepwise.Token.FromText

/-!
# Expressions and their reduction

An expression is the token sequence of a text and what has become of it so far.
A step reduces the deepest block, the last of several equally deep ones; when a
single token is left the expression is complete.  The blocks are kept beside the
tokens they were cut from, and a step cuts them anew before and after it reduces
one of them.
-/

namespace Stepwise

/-- What a step leaves behind. -/
structure Evaluation where
  /-- A single token is left. -/
  complete : Bool
  /-- The value of the block that the step reduced. -/
  value : Binary64
  tokens : List Token
  blocks : List Block
deriving DecidableEq

/-- A parsed expression in the course of its reduction. -/
structure Expression where
  /-- The text it was parsed from, with the bindings if they were part of it. -/
  source : String
  /-- The tokens right after parsing. -/
  parsed : List Token
  tokens : List Token
  /-- The blocks as they were cut last. -/
  blocks : List Block
  /-- The value of the block reduced last. -/
  value : Binary64
  steps : Nat
deriving DecidableEq

namespace Expression

/-! ## Parsing -/

/-- The value an expression starts with: that of its only token, or zero. -/
def startValue : List Token → Binary64
  | [t] => .ofText t.text
  | _ => .zero false

/-- The expression a text stands for under given bindings. -/
def parseWith (b : Bindings) (text : String) : Except InputError Expression :=
  let tokens := Token.ofText b text
  match Structure.fault? tokens with
  | some fault => .error fault
  | none => .ok
      { source := text
        parsed := tokens
        tokens := tokens
        blocks := Block.cut tokens
        value := startValue tokens
        steps := 0 }

/-! ## The present state -/

/-- A single token is left. -/
def isComplete (e : Expression) : Bool := e.tokens.length == 1

def render (e : Expression) : String := Token.render e.tokens

/-- The present state as the outcome of a step. -/
def evaluation (e : Expression) : Evaluation :=
  { complete := e.isComplete
    value := e.value
    tokens := e.tokens
    blocks := e.blocks }

/-- Equality of expressions in which values are compared as numbers, so that one
whose value is not-a-number equals nothing. -/
def sameState (e f : Expression) : Bool :=
  e.source == f.source && e.parsed == f.parsed && e.tokens == f.tokens &&
    e.blocks == f.blocks && e.value.sameValue f.value && e.steps == f.steps

/-! ## Reducing -/

/-- Reduces the deepest block.  Gives the outcome and the expression after the
step; a failure leaves the value and the number of steps as they were, but may
have changed the tokens, and then the blocks need not be theirs. -/
def next (e : Expression) : Except ReductionError Evaluation × Expression :=
  let cut : Expression := { e with blocks := Block.cut e.tokens }
  match Block.deepest? cut.blocks with
  | none => (.error (.malformedBlock 0 0), cut)
  | some block =>
      match Reduction.reduceBlock cut.tokens block with
      | (.error failure, tokens) => (.error failure, { cut with tokens := tokens })
      | (.ok result, tokens) =>
          let reduced : Expression := { cut with tokens := tokens, blocks := Block.cut tokens }
          if 1 < tokens.length && e.tokens.length ≤ tokens.length then
            (.error (.stalled (Token.render tokens)), reduced)
          else
            let after : Expression :=
              { reduced with value := .ofText result, steps := e.steps + 1 }
            (.ok after.evaluation, after)

/-- A step that does not complete the expression makes it shorter: one that
leaves several tokens and removes none is a failure. -/
theorem length_tokens_next_lt {e after : Expression} {outcome : Evaluation}
    (h : e.next = (.ok outcome, after)) (hc : outcome.complete = false) :
    after.tokens.length < e.tokens.length := by
  simp only [next] at h
  split at h
  · cases h
  · split at h
    · cases h
    · next result left hr =>
      split at h
      · cases h
      · next hlt =>
        cases h
        have hpos := List.length_pos_iff.mpr (Reduction.reduceBlock_ok_ne_nil hr)
        simp only [evaluation, isComplete, beq_eq_false_iff_ne] at hc
        simp only [Bool.and_eq_true, decide_eq_true_eq, not_and, Nat.not_le] at hlt
        exact hlt (by omega)

/-- Reduces to the end, or to the first failure, and gives the last outcome. -/
def evaluateAll (e : Expression) : Except ReductionError Evaluation × Expression :=
  match _h : e.next with
  | (.error failure, after) => (.error failure, after)
  | (.ok outcome, after) =>
      if _hc : outcome.complete then (.ok outcome, after) else evaluateAll after
termination_by e.tokens.length
decreasing_by exact length_tokens_next_lt _h (by simpa using _hc)

/-! ## Stepping -/

/-- A walk through the steps of an expression, one outcome at a time. -/
structure Walk where
  expression : Expression
  /-- The walk has given the completing step or a failure. -/
  ended : Bool
deriving DecidableEq

/-- The walk that begins at the present state. -/
def walk (e : Expression) : Walk := ⟨e, false⟩

/-- The next outcome of a walk, which is its last if it completes the expression
or fails. -/
def Walk.next? (w : Walk) : Option (Except ReductionError Evaluation) × Walk :=
  if w.ended then (none, w)
  else match w.expression.next with
    | (.ok outcome, after) => (some (.ok outcome), ⟨after, outcome.complete⟩)
    | (.error failure, after) => (some (.error failure), ⟨after, true⟩)

/-- The outcomes of all steps to the end, or to the first failure. -/
def outcomes (e : Expression) : List (Except ReductionError Evaluation) :=
  match _h : e.next with
  | (.error failure, _) => [.error failure]
  | (.ok outcome, after) =>
      if _hc : outcome.complete then [.ok outcome] else .ok outcome :: outcomes after
termination_by e.tokens.length
decreasing_by exact length_tokens_next_lt _h (by simpa using _hc)

end Expression
end Stepwise
