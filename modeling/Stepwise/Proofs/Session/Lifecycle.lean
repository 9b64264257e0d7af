import Stepwise.Proofs.Expression.Run
import Stepwise.Session

/-!
# The life of a session

A session is given inputs and asked to reduce, in any order.  What it answers
depends on the last input and the calls since then, `Recent`, and on nothing
before: a session that is given only these ends in the same state.

The phase is not kept but read off the state, so that it tells the truth only
because a call on an accepted input always succeeds and always counts a step.

Main statement: after any sequence of commands the phase, what is reported of the
input and the answer to every call are those of `Lifecycle`.
-/

namespace Stepwise.Session

/-! ## Commands -/

/-- A request to reduce. -/
inductive Call where
  | next
  | evaluateAll

/-- The answer to a call, and the session after it. -/
def Call.answer : Call → Session → Except ReductionError Evaluation × Session
  | .next => Session.next
  | .evaluateAll => Session.evaluateAll

inductive Command where
  | parse (input : String)
  | call (c : Call)

/-- The session after a command. -/
def perform (s : Session) : Command → Session
  | .parse input => (Session.parse input).2
  | .call c => (c.answer s).2

/-- A fresh session after the commands. -/
def run (commands : List Command) : Session := commands.foldl perform .fresh

/-! ## What counts of them -/

/-- The last input, if there has been one, and the calls since. -/
structure Recent where
  input? : Option String
  calls : List Call

namespace Recent

/-- What counts after one more command. -/
def push (r : Recent) : Command → Recent
  | .parse input => ⟨some input, []⟩
  | .call c => { r with calls := r.calls ++ [c] }

/-- What counts of a sequence of commands. -/
def ofCommands (commands : List Command) : Recent := commands.foldl push ⟨none, []⟩

/-- The commands that count. -/
def commands (r : Recent) : List Command :=
  r.input?.toList.map .parse ++ r.calls.map .call

/-- There has been no input, or the last one was rejected. -/
def Vacant (r : Recent) : Prop :=
  r.input? = none ∨
    ∃ input reason, r.input? = some input ∧ Expression.parse input = .error reason

/-- The last input was accepted. -/
def Accepted (r : Recent) : Prop :=
  ∃ input e, r.input? = some input ∧ Expression.parse input = .ok e

end Recent

variable {r : Recent} {s : Session} {e : Expression} {tree : Tree}

/-- The state that the recent commands have led to: no trace of an input, a
rejected one, or an accepted one after a number of steps that is zero only
without a call. -/
inductive Reached : Recent → Session → Prop
  | fresh {calls : List Call} : Reached ⟨none, calls⟩ .fresh
  | rejected {input : String} {reason : InputError} {calls : List Call} :
      Expression.parse input = .error reason →
      Reached ⟨some input, calls⟩ (.rejected input reason)
  | accepted {input : String} {e : Expression} {calls : List Call} {n : Nat} :
      Expression.parse input = .ok e → (n = 0 ↔ calls = []) →
      Reached ⟨some input, calls⟩ (.accepted (e.after n))

/-- A call on an accepted input takes steps, and never fails. -/
theorem Call.exists_answer_eq (c : Call) (h : Reads 3 e.tokens tree) :
    ∃ k outcome, c.answer (.accepted e) = (.ok outcome, .accepted (e.after k)) ∧ 0 < k ∧
      (e.isComplete = true → (e.after k).isComplete = true) := by
  cases c with
  | next =>
      refine ⟨1, (e.after 1).evaluation, ?_, Nat.one_pos, Expression.isComplete_after_one h⟩
      simp only [answer, Session.next, reduceBy, Expression.next_eq h]
  | evaluateAll =>
      refine ⟨stepsNeeded e.tokens, (e.after (stepsNeeded e.tokens)).evaluation, ?_,
        stepsNeeded_pos _, ?_⟩
      · simp only [answer, Session.evaluateAll, reduceBy, Expression.evaluateAll_eq h]
      · intro _
        rw [Expression.isComplete, (Expression.after_stepsNeeded h).1]
        rfl

theorem Call.answer_of_expression?_eq_none (c : Call) (h : s.expression? = none) :
    c.answer s = (.error .notParsed, s) := by
  cases s with
  | fresh => cases c <;> rfl
  | rejected source reason => cases c <;> rfl
  | accepted e => cases h

theorem exists_reads_of_parse {input : String} (h : Expression.parse input = .ok e) (n : Nat) :
    ∃ tree, Reads 3 (e.after n).tokens tree := by
  obtain ⟨tree, hreads⟩ := (Expression.Parsed.ofInput h).exists_reads
  obtain ⟨tree', hreads', _⟩ := Expression.exists_reads_after hreads n
  exact ⟨tree', hreads'⟩

theorem Reached.perform (h : Reached r s) (command : Command) :
    Reached (r.push command) (s.perform command) := by
  cases command with
  | parse input =>
      simp only [Recent.push, Session.perform, Session.parse]
      cases hparse : Expression.parse input with
      | error reason => exact .rejected hparse
      | ok e => exact .accepted (n := 0) hparse (iff_of_true rfl rfl)
  | call c =>
      cases h with
      | fresh => cases c <;> exact .fresh
      | rejected hparse => cases c <;> exact .rejected hparse
      | @accepted input e calls n hparse hn =>
          obtain ⟨tree, hreads⟩ := exists_reads_of_parse hparse n
          obtain ⟨k, outcome, hanswer, hk, _⟩ := c.exists_answer_eq hreads
          rw [Session.perform, hanswer, ← Expression.after_add]
          refine .accepted hparse (iff_of_false (by omega) ?_)
          exact List.append_ne_nil_of_right_ne_nil _ (List.cons_ne_nil _ _)

/-- The commands lead to the state that the recent ones tell. -/
theorem reached_run (commands : List Command) :
    Reached (.ofCommands commands) (run commands) := by
  have hall : ∀ {r s}, Reached r s →
      Reached (commands.foldl Recent.push r) (commands.foldl perform s) := by
    induction commands with
    | nil => exact id
    | cons command commands ih =>
        intro r s h
        exact ih (h.perform command)
  exact hall .fresh

/-! ## Nothing before counts -/

theorem run_append (commands more : List Command) :
    run (commands ++ more) = more.foldl perform (run commands) :=
  List.foldl_append

/-- A command leads to the state that the recent commands alone lead to. -/
theorem perform_run_commands (r : Recent) (command : Command) :
    (run r.commands).perform command = run (r.push command).commands := by
  obtain ⟨input?, calls⟩ := r
  cases command with
  | parse input => rfl
  | call c =>
      have hcommands : (Recent.push ⟨input?, calls⟩ (.call c)).commands =
          Recent.commands ⟨input?, calls⟩ ++ [.call c] := by
        simp only [Recent.commands, Recent.push, List.map_append, List.append_assoc]
        rfl
      rw [hcommands, run_append]
      rfl

/-- A session that is given only the recent commands ends in the same state. -/
theorem run_commands_ofCommands (commands : List Command) :
    run (Recent.ofCommands commands).commands = run commands := by
  have hall : ∀ r : Recent, run (commands.foldl Recent.push r).commands =
      commands.foldl perform (run r.commands) := by
    induction commands with
    | nil => exact fun r => rfl
    | cons command commands ih =>
        intro r
        rw [List.foldl_cons, List.foldl_cons, ih, perform_run_commands]
  exact hall ⟨none, []⟩

/-! ## What is left of the last input -/

theorem Recent.vacant_or_accepted (r : Recent) : r.Vacant ∨ r.Accepted := by
  obtain ⟨input?, calls⟩ := r
  cases input? with
  | none => exact .inl (.inl rfl)
  | some input =>
      cases hparse : Expression.parse input with
      | error reason => exact .inl (.inr ⟨input, reason, rfl, hparse⟩)
      | ok e => exact .inr ⟨input, e, rfl, hparse⟩

theorem Reached.expression?_eq_none (h : Reached r s) (hr : r.Vacant) :
    s.expression? = none := by
  cases h with
  | fresh => rfl
  | rejected _ => rfl
  | accepted hparse _ =>
      rcases hr with hnone | ⟨input, reason, hinput, herror⟩
      · cases hnone
      · cases hinput
        cases hparse.symm.trans herror

theorem Reached.exists_accepted (h : Reached r s) (hr : r.Accepted) :
    ∃ input e n, Expression.parse input = .ok e ∧ s = .accepted (e.after n) ∧
      (n = 0 ↔ r.calls = []) := by
  obtain ⟨input, e, hinput, hparse⟩ := hr
  cases h with
  | fresh => cases hinput
  | rejected herror =>
      cases hinput
      cases hparse.symm.trans herror
  | @accepted input e calls n hparse hn => exact ⟨input, e, n, hparse, rfl, hn⟩

theorem Reached.eq_rejected (h : Reached r s) {input : String} {reason : InputError}
    (hinput : r.input? = some input) (herror : Expression.parse input = .error reason) :
    s = .rejected input reason := by
  cases h with
  | fresh => cases hinput
  | rejected herror' =>
      cases hinput
      cases herror.symm.trans herror'
      rfl
  | accepted hparse _ =>
      cases hinput
      cases hparse.symm.trans herror

theorem Reached.source_eq (h : Reached r s) : s.source = r.input?.getD "" := by
  cases h with
  | fresh => rfl
  | rejected _ => rfl
  | @accepted input e _ n hparse _ =>
      obtain ⟨tree, hreads⟩ := (Expression.Parsed.ofInput hparse).exists_reads
      obtain ⟨b, text, e', _, rfl⟩ := Expression.exists_parseWith_of_parse hparse
      exact (Expression.source_after hreads n).1

/-! ## The phases -/

theorem phase_eq_empty_iff_expression? : s.phase = .empty ↔ s.expression? = none := by
  cases s with
  | fresh => exact iff_of_true rfl rfl
  | rejected source reason => exact iff_of_true rfl rfl
  | accepted e =>
      refine iff_of_false ?_ nofun
      simp only [phase]
      split
      · nofun
      · split <;> nofun

section Accepted

variable {input : String}

/-- Every step is counted, so that the phase tells whether one has been taken. -/
theorem phase_accepted_after (h : Expression.parse input = .ok e) (n : Nat) :
    (accepted (e.after n)).phase =
      if n = 0 then .parsed
      else if (e.after n).tokens.length = 1 then .complete else .reducing := by
  have hparsed := Expression.Parsed.ofInput h
  obtain ⟨tree, hreads⟩ := hparsed.exists_reads
  have hsteps : (e.after n).steps = n := by
    rw [Expression.steps_after hreads, hparsed.spec.2.1, Nat.zero_add]
  simp only [phase, hsteps, Expression.isComplete, beq_iff_eq]

theorem phase_accepted_eq_parsed_iff (h : Expression.parse input = .ok e) {n : Nat} :
    (accepted (e.after n)).phase = .parsed ↔ n = 0 := by
  rw [phase_accepted_after h]
  split
  · next hn => exact iff_of_true rfl hn
  · next hn => split <;> exact iff_of_false nofun hn

theorem phase_accepted_eq_complete_iff (h : Expression.parse input = .ok e) {n : Nat} :
    (accepted (e.after n)).phase = .complete ↔ n ≠ 0 ∧ (e.after n).isComplete = true := by
  rw [phase_accepted_after h, Expression.isComplete, beq_iff_eq]
  split
  · next hn =>
    refine iff_of_false ?_ fun hboth => hboth.1 hn
    intro hphase
    cases hphase
  · next hn =>
    split
    · next hlength => exact iff_of_true rfl ⟨hn, hlength⟩
    · next hlength =>
      refine iff_of_false ?_ fun hboth => hlength hboth.2
      intro hphase
      cases hphase

end Accepted

namespace Reached

theorem phase_eq_empty_iff (h : Reached r s) : s.phase = .empty ↔ r.Vacant := by
  rw [phase_eq_empty_iff_expression?]
  refine ⟨?_, h.expression?_eq_none⟩
  intro hnone
  refine r.vacant_or_accepted.resolve_right ?_
  intro hr
  obtain ⟨input, e, n, _, rfl, _⟩ := h.exists_accepted hr
  cases hnone

theorem accepted_of_phase (h : Reached r s) (hphase : s.phase ≠ .empty) : r.Accepted := by
  refine r.vacant_or_accepted.resolve_left ?_
  intro hr
  exact hphase (h.phase_eq_empty_iff.mpr hr)

theorem phase_eq_parsed_iff (h : Reached r s) :
    s.phase = .parsed ↔ r.Accepted ∧ r.calls = [] := by
  constructor
  · intro hphase
    have hr := h.accepted_of_phase (by rw [hphase]; nofun)
    obtain ⟨input, e, n, hparse, rfl, hn⟩ := h.exists_accepted hr
    exact ⟨hr, hn.mp ((phase_accepted_eq_parsed_iff hparse).mp hphase)⟩
  · rintro ⟨hr, hcalls⟩
    obtain ⟨input, e, n, hparse, rfl, hn⟩ := h.exists_accepted hr
    exact (phase_accepted_eq_parsed_iff hparse).mpr (hn.mpr hcalls)

theorem phase_eq_of_calls (h : Reached r s) (hr : r.Accepted) (hcalls : r.calls ≠ []) :
    s.phase = if s.tokens.length = 1 then .complete else .reducing := by
  obtain ⟨input, e, n, hparse, rfl, hn⟩ := h.exists_accepted hr
  rw [phase_accepted_after hparse, if_neg (hcalls ∘ hn.mp)]
  rfl

/-- A call on a complete expression takes one more step, which leaves it
complete. -/
theorem complete_of_complete (h : Reached r s) (hphase : s.phase = .complete) (c : Call) :
    (c.answer s).2.phase = .complete := by
  have hr := h.accepted_of_phase (by rw [hphase]; nofun)
  obtain ⟨input, e, n, hparse, rfl, _⟩ := h.exists_accepted hr
  obtain ⟨tree, hreads⟩ := exists_reads_of_parse hparse n
  obtain ⟨k, outcome, hanswer, hk, hcomplete⟩ := c.exists_answer_eq hreads
  obtain ⟨_, hdone⟩ := (phase_accepted_eq_complete_iff hparse).mp hphase
  rw [hanswer]
  show (Session.accepted ((e.after n).after k)).phase = .complete
  rw [← Expression.after_add, phase_accepted_eq_complete_iff hparse, Expression.after_add]
  exact ⟨by omega, hcomplete hdone⟩

theorem answer_of_accepted (h : Reached r s) (hr : r.Accepted) (c : Call) :
    ∃ outcome, (c.answer s).1 = .ok outcome := by
  obtain ⟨input, e, n, hparse, rfl, _⟩ := h.exists_accepted hr
  obtain ⟨tree, hreads⟩ := exists_reads_of_parse hparse n
  obtain ⟨k, outcome, hanswer, _⟩ := c.exists_answer_eq hreads
  exact ⟨outcome, congrArg Prod.fst hanswer⟩

theorem rejection?_eq_none (h : Reached r s) (hr : r.Accepted) : s.rejection? = none := by
  obtain ⟨input, e, n, _, rfl, _⟩ := h.exists_accepted hr
  rfl

theorem report_of_rejected (h : Reached r s) {input : String} {reason : InputError}
    (hinput : r.input? = some input) (herror : Expression.parse input = .error reason) :
    (Session.parse input).1 = ⟨false, reason.message⟩ ∧ s.rejection? = some reason ∧
      s.tokens = [⟨.error, reason.message⟩] ∧ s.blocks = [] ∧ s.parsedTokens = [] := by
  rw [h.eq_rejected hinput herror, Session.parse, herror]
  exact ⟨rfl, rfl, rfl, rfl, rfl⟩

end Reached

/-! ## Every sequence of commands -/

/-- What a session is like after commands of which `r` counts. -/
structure Lifecycle (r : Recent) (s : Session) : Prop where
  source_eq : s.source = r.input?.getD ""
  phase_eq_empty_iff : s.phase = .empty ↔ r.Vacant
  phase_eq_parsed_iff : s.phase = .parsed ↔ r.Accepted ∧ r.calls = []
  phase_eq_of_calls : r.Accepted → r.calls ≠ [] →
    s.phase = if s.tokens.length = 1 then .complete else .reducing
  /-- Only an input ends this phase. -/
  complete_of_complete : s.phase = .complete → ∀ c : Call, (c.answer s).2.phase = .complete
  /-- Without an accepted input every call is refused and changes nothing. -/
  answer_of_vacant : r.Vacant → ∀ c : Call, c.answer s = (.error .notParsed, s)
  /-- With one every call is answered. -/
  answer_of_accepted : r.Accepted → ∀ c : Call, ∃ outcome, (c.answer s).1 = .ok outcome
  /-- The report on a rejected input and the only token hold the message of the
  reason. -/
  report_of_rejected : ∀ input reason, r.input? = some input →
    Expression.parse input = .error reason →
    (Session.parse input).1 = ⟨false, reason.message⟩ ∧ s.rejection? = some reason ∧
      s.tokens = [⟨.error, reason.message⟩] ∧ s.blocks = [] ∧ s.parsedTokens = []
  rejection?_eq_none : r.Accepted → s.rejection? = none
  /-- A session that is given only the commands that count is the same. -/
  run_commands : run r.commands = s

/-- Whatever commands a session is given, it is as `Lifecycle` says of those that
count. -/
theorem lifecycle_run (commands : List Command) :
    Lifecycle (.ofCommands commands) (run commands) := by
  have h := reached_run commands
  exact
    { source_eq := h.source_eq
      phase_eq_empty_iff := h.phase_eq_empty_iff
      phase_eq_parsed_iff := h.phase_eq_parsed_iff
      phase_eq_of_calls := h.phase_eq_of_calls
      complete_of_complete := h.complete_of_complete
      answer_of_vacant := fun hr c => c.answer_of_expression?_eq_none (h.expression?_eq_none hr)
      answer_of_accepted := h.answer_of_accepted
      report_of_rejected := fun _ _ => h.report_of_rejected
      rejection?_eq_none := h.rejection?_eq_none
      run_commands := run_commands_ofCommands commands }

/-- A step on an input that follows a rejected one. -/
theorem lifecycle_run_nested :
    let commands : List Command := [.call .next, .parse "1+", .call .evaluateAll,
      .parse "2*(3-(1))", .call .next]
    (Recent.ofCommands commands).Accepted ∧ (Recent.ofCommands commands).calls ≠ [] ∧
      (run commands).phase = .reducing ∧ (run commands).source = "2*(3-(1))" ∧
      (run commands).rejection? = none := by
  intro commands
  have haccepted : (Recent.ofCommands commands).Accepted := ⟨"2*(3-(1))", _, rfl, rfl⟩
  have hcalls : (Recent.ofCommands commands).calls ≠ [] := List.cons_ne_nil _ _
  have hlength : ¬(run commands).tokens.length = 1 := by decide +kernel
  have h := lifecycle_run commands
  refine ⟨haccepted, hcalls, ?_, h.source_eq, h.rejection?_eq_none haccepted⟩
  rw [h.phase_eq_of_calls haccepted hcalls, if_neg hlength]

end Stepwise.Session
