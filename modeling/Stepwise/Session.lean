import Stepwise.Expression.OfInput

/-!
# Sessions

A session keeps the last input it was given: the expression it was parsed to, in
the course of its reduction, or why it was rejected.  Nothing that came before
that input has a bearing on what a session answers.
-/

namespace Stepwise

/-- How far a session is with its input. -/
inductive Phase where
  /-- There has been no input, or the last one was rejected. -/
  | empty
  /-- No step has been taken. -/
  | parsed
  /-- A step has been taken and several tokens are left. -/
  | reducing
  /-- A step has been taken and a single token is left. -/
  | complete
deriving DecidableEq, Repr

/-- What a session reports about an input. -/
structure Outcome where
  success : Bool
  message : String
deriving DecidableEq, Repr

namespace Outcome

def accepted : Outcome := ⟨true, "Parsing complete."⟩

def rejected (reason : InputError) : Outcome := ⟨false, reason.message⟩

end Outcome

/-- The last input of a session and what became of it. -/
inductive Session where
  | fresh
  | rejected (source : String) (reason : InputError)
  | accepted (e : Expression)
deriving DecidableEq

namespace Session

/-! ## Input -/

/-- The report on an input, and the session after it. -/
def parse (source : String) : Outcome × Session :=
  match Expression.parse source with
  | .ok e => (.accepted, .accepted e)
  | .error reason => (.rejected reason, .rejected source reason)

/-! ## The present state -/

/-- The expression of an accepted input. -/
def expression? : Session → Option Expression
  | .accepted e => some e
  | _ => none

/-- Why the last input was rejected. -/
def rejection? : Session → Option InputError
  | .rejected _ reason => some reason
  | _ => none

def phase : Session → Phase
  | .accepted e =>
      if e.steps = 0 then .parsed else if e.isComplete then .complete else .reducing
  | _ => .empty

def source : Session → String
  | .fresh => ""
  | .rejected source _ => source
  | .accepted e => e.source

/-- The present tokens; a rejected input has a single one that holds the
message. -/
def tokens : Session → List Token
  | .fresh => []
  | .rejected _ reason => [.error reason.message]
  | .accepted e => e.tokens

/-- The tokens of an accepted input before any reduction. -/
def parsedTokens : Session → List Token
  | .accepted e => e.parsed
  | _ => []

def blocks : Session → List Block
  | .accepted e => e.blocks
  | _ => []

/-! ## Reducing -/

/-- Applies a reduction to the session's expression; without one it fails and
nothing changes. -/
def reduceBy (reduce : Expression → Except ReductionError Evaluation × Expression) :
    Session → Except ReductionError Evaluation × Session
  | .accepted e => let (answer, after) := reduce e; (answer, .accepted after)
  | s => (.error .notParsed, s)

def next : Session → Except ReductionError Evaluation × Session := reduceBy Expression.next

/-- As for expressions: a step that does not complete the input makes its sequence
shorter. -/
theorem length_tokens_next_lt {s after : Session} {outcome : Evaluation}
    (h : s.next = (.ok outcome, after)) (hc : outcome.complete = false) :
    after.tokens.length < s.tokens.length := by
  cases s with
  | accepted e =>
      obtain ⟨hanswer, rfl⟩ := Prod.mk.inj h
      exact Expression.length_tokens_next_lt (Prod.ext hanswer rfl) hc
  | fresh => cases h
  | rejected _ _ => cases h

def evaluateAll : Session → Except ReductionError Evaluation × Session :=
  reduceBy Expression.evaluateAll

end Session
end Stepwise
