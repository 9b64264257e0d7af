import Stepwise.Token.Basic

/-!
# Blocks

A token sequence is cut at its parentheses into blocks, each at one nesting
depth.  The blocks lie side by side and belong to the sequence they were cut
from: after a change it has to be cut again.
-/

namespace Stepwise

/-- The tokens from index `start` up to, not including, index `stop`. -/
structure Block where
  /-- The place in the order of the sequence, from 1. -/
  id : Nat
  /-- The nesting depth at which the block ends. -/
  priority : Nat
  start : Nat
  stop : Nat
deriving DecidableEq, Repr

namespace Block

/-- The tokens of a sequence that a block covers. -/
def region (b : Block) (tokens : List Token) : List Token :=
  (tokens.drop b.start).take (b.stop - b.start)

/-- The blocks of `tokens`, when the block in progress is the `id`-th, lies at
`depth` and began at `start`, and the first token stands at `index`.

A `(` ends a block and begins the next, a `)` belongs to the block it ends, and
the end of the sequence ends the last.  A `)` too many stays at depth 0. -/
def cutFrom (id depth start index : Nat) : List Token → List Block
  | [] => []
  | t :: rest =>
      if t.isOpening then
        ⟨id, depth, start, index⟩ :: cutFrom (id + 1) (depth + 1) index (index + 1) rest
      else if t.isClosing then
        ⟨id, depth, start, index + 1⟩ ::
          cutFrom (id + 1) (depth - 1) (index + 1) (index + 1) rest
      else if rest.isEmpty then [⟨id, depth, start, index + 1⟩]
      else cutFrom id depth start (index + 1) rest

def cut (tokens : List Token) : List Block := cutFrom 1 0 0 0 tokens

/-- The deepest block, and of several equally deep ones the last. -/
def deepest? : List Block → Option Block
  | [] => none
  | b :: rest =>
      match deepest? rest with
      | some best => if b.priority ≤ best.priority then some best else some b
      | none => some b

end Block
end Stepwise
