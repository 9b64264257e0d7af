import Stepwise.Proofs.Expression.Run

/-!
# Using an expression

An expression can be stepped, run to its end, or walked through, and a walk can
be left before it ends.  However often and in whatever order that is done, what
is done to the expression is a number of steps, so that its state is `after` that
number, and every outcome handed out is that of the last step before it.

Main statement: any uses of an expression that has a tree leave it `after` the
number of steps that they take, and every event on the way is the event of one of
its steps.
-/

namespace Stepwise

/-- An outcome that is handed out, with the expression right after it. -/
structure Event where
  outcome : Except ReductionError Evaluation
  expression : Expression

/-- A way to take steps. -/
inductive Use where
  | next
  | evaluateAll
  /-- A new walk that is left after so many calls. -/
  | walk (calls : Nat)

namespace Expression

/-- The events of the next calls of a walk, and the walk after them.  Once it has
ended a call hands nothing out. -/
def Walk.take : (calls : Nat) → Walk → List Event × Walk
  | 0, w => ([], w)
  | calls + 1, w =>
      match w.next? with
      | (none, left) => take calls left
      | (some outcome, left) =>
          let (events, last) := take calls left
          (⟨outcome, left.expression⟩ :: events, last)

end Expression

namespace Use

/-- The events of a use, and the expression after it. -/
def apply : Use → Expression → List Event × Expression
  | .next, e =>
      let (outcome, left) := e.next
      ([⟨outcome, left⟩], left)
  | .evaluateAll, e =>
      let (outcome, left) := e.evaluateAll
      ([⟨outcome, left⟩], left)
  | .walk calls, e =>
      let (events, last) := e.walk.take calls
      (events, last.expression)

/-- The number of steps that a use takes.  A run takes those that a walk to the
end gives one by one. -/
def steps : Use → Expression → Nat
  | .next, _ => 1
  | .evaluateAll, e => e.outcomes.length
  | .walk calls, e => (e.walk.take calls).1.length

end Use

namespace Expression

/-- The events of several uses, one after the other, and the expression after
them. -/
def use : List Use → Expression → List Event × Expression
  | [], e => ([], e)
  | u :: uses, e =>
      let (events, left) := u.apply e
      let (more, last) := use uses left
      (events ++ more, last)

/-- The number of steps that several uses take. -/
def stepsOf : List Use → Expression → Nat
  | [], _ => 0
  | u :: uses, e => u.steps e + stepsOf uses (u.apply e).2

variable {e : Expression} {tree : Tree}

/-! ## Outcomes of a walk to the end -/

theorem outcomes_eq_of_next {outcome : Evaluation} {after : Expression}
    (h : e.next = (.ok outcome, after)) :
    e.outcomes = .ok outcome :: if outcome.complete then [] else after.outcomes := by
  rw [outcomes]
  split
  · next heq => cases h.symm.trans heq
  · next heq =>
    cases h.symm.trans heq
    split <;> rfl

theorem outcomes_eq (h : Reads 3 e.tokens tree) :
    e.outcomes = (List.range (stepsNeeded e.tokens)).map fun k => (e.after k).next.1 := by
  obtain ⟨n, hn⟩ : ∃ n, stepsNeeded e.tokens = n + 1 :=
    Nat.exists_eq_succ_of_ne_zero (Nat.ne_of_gt (stepsNeeded_pos e.tokens))
  rw [hn]
  induction n generalizing e tree with
  | zero =>
      have hlength := (length_tokens_after h (n := 0) (by omega)).mpr hn.symm
      have hcomplete : (e.after 1).evaluation.complete = true := beq_iff_eq.mpr hlength
      rw [outcomes_eq_of_next (next_eq h), if_pos hcomplete]
      exact congrArg ([·]) (congrArg Prod.fst (next_eq h)).symm
  | succ n ih =>
      have hlength := (not_congr (length_tokens_after h (n := 0) (by omega))).mpr (by omega)
      have hcomplete : ¬(e.after 1).evaluation.complete = true :=
        fun hc => hlength (beq_iff_eq.mp hc)
      obtain ⟨tree', htree', _⟩ := exists_reads_after h 1
      have hneeded : stepsNeeded (e.after 1).tokens = n + 1 := by
        rw [stepsNeeded_after h (by omega), hn]
        omega
      have hrest : (e.after 1).outcomes =
          (List.range (n + 1)).map fun k => (e.after (k + 1)).next.1 := by
        simp only [ih htree' hneeded, ← after_add, Nat.add_comm 1]
      rw [outcomes_eq_of_next (next_eq h), if_neg hcomplete, hrest,
        List.range_succ_eq_map (n := n + 1), List.map_cons, List.map_map]
      exact congrArg (· :: (List.range (n + 1)).map fun k => (e.after (k + 1)).next.1)
        (congrArg Prod.fst (next_eq h)).symm

theorem length_outcomes (h : Reads 3 e.tokens tree) :
    e.outcomes.length = stepsNeeded e.tokens := by
  rw [outcomes_eq h, List.length_map, List.length_range]

/-! ## Every use takes steps -/

/-- The event of the step after `n` steps. -/
def event (e : Expression) (n : Nat) : Event :=
  ⟨.ok (e.after (n + 1)).evaluation, e.after (n + 1)⟩

theorem event_after (e : Expression) (m n : Nat) : (e.after m).event n = e.event (m + n) := by
  simp only [event, ← after_add, Nat.add_assoc]

/-- The first call of a walk takes a step, and ends the walk if it completes the
expression. -/
theorem walk_next?_eq (h : Reads 3 e.tokens tree) :
    e.walk.next? = (some (.ok (e.after 1).evaluation), ⟨e.after 1, (e.after 1).isComplete⟩) := by
  simp only [walk, Walk.next?, next_eq h]
  rfl

theorem take_of_ended (e : Expression) : ∀ calls, Walk.take calls ⟨e, true⟩ = ([], ⟨e, true⟩)
  | 0 => rfl
  | calls + 1 => take_of_ended e calls

theorem take_walk (h : Reads 3 e.tokens tree) (calls : Nat) :
    (e.walk.take calls).2.expression = e.after (e.walk.take calls).1.length ∧
      ∀ event ∈ (e.walk.take calls).1, ∃ n, event = e.event n := by
  induction calls generalizing e tree with
  | zero => exact ⟨rfl, fun _ hmem => absurd hmem List.not_mem_nil⟩
  | succ calls ih =>
      have hcall := walk_next?_eq h
      cases hcomplete : (e.after 1).isComplete with
      | true =>
          rw [hcomplete] at hcall
          simp only [Walk.take, hcall, take_of_ended]
          exact ⟨rfl, List.forall_mem_singleton.mpr ⟨0, rfl⟩⟩
      | false =>
          obtain ⟨tree', htree', _⟩ := exists_reads_after h 1
          obtain ⟨hlast, hevents⟩ := ih htree'
          rw [hcomplete] at hcall
          simp only [Walk.take, hcall]
          refine ⟨?_, List.forall_mem_cons.mpr ⟨⟨0, rfl⟩, ?_⟩⟩
          · exact hlast.trans (after_succ e _).symm
          · intro event hmem
            obtain ⟨n, rfl⟩ := hevents event hmem
            exact ⟨1 + n, event_after e 1 n⟩

/-- A use takes its number of steps, and its events are those of steps. -/
theorem apply_eq (h : Reads 3 e.tokens tree) (u : Use) :
    (u.apply e).2 = e.after (u.steps e) ∧ ∀ event ∈ (u.apply e).1, ∃ n, event = e.event n := by
  cases u with
  | next =>
      simp only [Use.apply, Use.steps, next_eq h]
      exact ⟨trivial, List.forall_mem_singleton.mpr ⟨0, rfl⟩⟩
  | evaluateAll =>
      obtain ⟨n, hn⟩ := Nat.exists_eq_succ_of_ne_zero (Nat.ne_of_gt (stepsNeeded_pos e.tokens))
      simp only [Use.apply, Use.steps, evaluateAll_eq h, length_outcomes h]
      exact ⟨trivial, List.forall_mem_singleton.mpr ⟨n, by rw [hn]; rfl⟩⟩
  | walk calls => exact take_walk h calls

theorem use_eq (h : Reads 3 e.tokens tree) (uses : List Use) :
    (e.use uses).2 = e.after (e.stepsOf uses) ∧
      ∀ event ∈ (e.use uses).1, ∃ n, event = e.event n := by
  induction uses generalizing e tree with
  | nil => exact ⟨rfl, fun _ hmem => absurd hmem List.not_mem_nil⟩
  | cons u uses ih =>
      obtain ⟨hleft, hevents⟩ := apply_eq h u
      obtain ⟨tree', htree', _⟩ := exists_reads_after h (u.steps e)
      obtain ⟨hlast, hmore⟩ := ih htree'
      simp only [use, stepsOf, hleft]
      refine ⟨?_, List.forall_mem_append.mpr ⟨hevents, ?_⟩⟩
      · rw [hlast, after_add]
      · intro event hmem
        obtain ⟨n, rfl⟩ := hmore event hmem
        exact ⟨_, event_after e (u.steps e) n⟩

end Expression
end Stepwise
