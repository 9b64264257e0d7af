import Stepwise.Proofs.Session.Lifecycle

/-!
# A session in four fields

A session can be kept as a record in which the input, its expression, the reason for its
rejection and a token with the message stand side by side.  Nothing about such a record says
that what is in one field goes with what is in another, and an input writes over a record
that still holds an earlier one.

`Keeps` says which records keep a session.  Main statement: from fresh ones on, the record
and the session go side by side through all commands, with the same reports, the same answers
and the same to be seen at every point.  So no field ever tells of an earlier input.
-/

namespace Stepwise

namespace Session

/-- The fields of a session. -/
structure Fields where
  source : String
  expression? : Option Expression
  rejection? : Option InputError
  /-- The tokens of an input that was rejected. -/
  failure : List Token
deriving DecidableEq

namespace Fields

def fresh : Fields := ⟨"", none, none, []⟩

/-- The report on an input, and the fields after it: all of them are written. -/
def parse (f : Fields) (input : String) : Outcome × Fields :=
  let cleared := { f with source := input, expression? := none, rejection? := none, failure := [] }
  match Expression.parse input with
  | .ok e => (.accepted, { cleared with expression? := some e })
  | .error reason =>
      (.rejected reason, { cleared with
        failure := [.error reason.message], rejection? := some reason })

/-- Applies a reduction to the expression, if there is one. -/
def reduceBy (reduce : Expression → Except ReductionError Evaluation × Expression)
    (f : Fields) : Except ReductionError Evaluation × Fields :=
  match f.expression? with
  | some e => let (answer, after) := reduce e; (answer, { f with expression? := some after })
  | none => (.error .notParsed, f)

/-- The answer to a call, and the fields after it. -/
def answer (f : Fields) : Call → Except ReductionError Evaluation × Fields
  | .next => f.reduceBy Expression.next
  | .evaluateAll => f.reduceBy Expression.evaluateAll

def perform (f : Fields) : Command → Fields
  | .parse input => (f.parse input).2
  | .call c => (f.answer c).2

/-- Fresh fields after the commands. -/
def run (commands : List Command) : Fields := commands.foldl perform fresh

/-! ## What is seen -/

def phase (f : Fields) : Phase :=
  match f.expression? with
  | none => .empty
  | some e => if e.steps = 0 then .parsed else if e.isComplete then .complete else .reducing

def tokens (f : Fields) : List Token := f.expression?.elim f.failure Expression.tokens

def parsedTokens (f : Fields) : List Token := f.expression?.elim [] Expression.parsed

def blocks (f : Fields) : List Block := f.expression?.elim [] Expression.blocks

end Fields

/-! ## Fields that keep a session -/

/-- The fields that a session is kept in. -/
inductive Keeps : Fields → Session → Prop
  | fresh : Keeps ⟨"", none, none, []⟩ .fresh
  | rejected {source : String} {reason : InputError} :
      Keeps ⟨source, none, some reason, [⟨.error, reason.message⟩]⟩ (.rejected source reason)
  | accepted {e : Expression} : Keeps ⟨e.source, some e, none, []⟩ (.accepted e)

variable {f g : Fields} {s : Session}

/-- Whatever the fields hold, after an input they keep the session with that input. -/
theorem keeps_parse (f : Fields) (input : String) :
    (f.parse input).1 = (Session.parse input).1 ∧
      Keeps (f.parse input).2 (Session.parse input).2 := by
  rw [Fields.parse, Session.parse]
  cases hparse : Expression.parse input with
  | error reason => exact ⟨rfl, .rejected⟩
  | ok e =>
      obtain ⟨b, text, e', _, rfl⟩ := Expression.exists_parseWith_of_parse hparse
      exact ⟨rfl, @Keeps.accepted { e' with source := input }⟩

theorem Keeps.reduceBy {reduce : Expression → Except ReductionError Evaluation × Expression}
    (hsource : ∀ e, (reduce e).2.source = e.source) (h : Keeps f s) :
    (f.reduceBy reduce).1 = (s.reduceBy reduce).1 ∧
      Keeps (f.reduceBy reduce).2 (s.reduceBy reduce).2 := by
  cases h with
  | fresh => exact ⟨rfl, .fresh⟩
  | rejected => exact ⟨rfl, .rejected⟩
  | @accepted e =>
      refine ⟨rfl, ?_⟩
      show Keeps ⟨e.source, some (reduce e).2, none, []⟩ (.accepted (reduce e).2)
      rw [← hsource e]
      exact .accepted

theorem Keeps.answer (h : Keeps f s) (c : Call) :
    (f.answer c).1 = (c.answer s).1 ∧ Keeps (f.answer c).2 (c.answer s).2 := by
  cases c with
  | next => exact h.reduceBy Expression.source_next
  | evaluateAll => exact h.reduceBy Expression.source_evaluateAll

theorem Keeps.perform (h : Keeps f s) (command : Command) :
    Keeps (f.perform command) (s.perform command) := by
  cases command with
  | parse input => exact (keeps_parse f input).2
  | call c => exact (h.answer c).2

theorem keeps_run (commands : List Command) : Keeps (.run commands) (run commands) := by
  have hall : ∀ {f s}, Keeps f s →
      Keeps (commands.foldl Fields.perform f) (commands.foldl perform s) := by
    induction commands with
    | nil => exact id
    | cons command commands ih =>
        intro f s h
        exact ih (h.perform command)
  exact hall .fresh

theorem Keeps.unique (h : Keeps f s) (h' : Keeps g s) : f = g := by
  cases h with
  | fresh => cases h'; rfl
  | rejected => cases h'; rfl
  | accepted => cases h'; rfl

/-! ## Every sequence of commands -/

/-- The fields and the session show the same, and answer the same to what comes next. -/
structure Alike (f : Fields) (s : Session) : Prop where
  source : f.source = s.source
  expression? : f.expression? = s.expression?
  rejection? : f.rejection? = s.rejection?
  phase : f.phase = s.phase
  tokens : f.tokens = s.tokens
  parsedTokens : f.parsedTokens = s.parsedTokens
  blocks : f.blocks = s.blocks
  parse : ∀ input, (f.parse input).1 = (Session.parse input).1
  answer : ∀ c : Call, (f.answer c).1 = (c.answer s).1

theorem Keeps.alike (h : Keeps f s) : Alike f s := by
  have hparse := fun input => (keeps_parse f input).1
  have hanswer := fun c => (h.answer c).1
  cases h with
  | fresh => exact ⟨rfl, rfl, rfl, rfl, rfl, rfl, rfl, hparse, hanswer⟩
  | rejected => exact ⟨rfl, rfl, rfl, rfl, rfl, rfl, rfl, hparse, hanswer⟩
  | accepted => exact ⟨rfl, rfl, rfl, rfl, rfl, rfl, rfl, hparse, hanswer⟩

/-- Whatever commands they are given, the fields show and answer what the session does, and
each of them is as it is after the commands that count alone. -/
theorem alike_run (commands : List Command) :
    Alike (.run commands) (run commands) ∧
      Fields.run (Recent.ofCommands commands).commands = .run commands := by
  have hkeeps := keeps_run commands
  have hrecent := keeps_run (Recent.ofCommands commands).commands
  rw [run_commands_ofCommands] at hrecent
  exact ⟨hkeeps.alike, hrecent.unique hkeeps⟩

end Session
end Stepwise
