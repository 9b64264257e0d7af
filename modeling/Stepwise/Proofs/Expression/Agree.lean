import Stepwise.Proofs.Expression.Coherent

/-!
# Single steps, walks and runs

There are three ways to reduce an expression, and each has its own reason to stop:
the caller of single steps decides, a walk has a flag, and a run goes on until an
outcome is complete.  `Agree` says that they are one and the same sequence of
steps, and it is stated of any state, so that it does not matter which of them have
been used before.

In a complete state there is nothing left to reduce, but a step is taken and counted
all the same.  `Idle` says that it changes nothing else.

Main statement: both hold after any uses of a parsed expression.
-/

namespace Stepwise

namespace Expression

/-- The walk after so many calls. -/
def Walk.after (w : Walk) : (calls : Nat) → Walk
  | 0 => w
  | calls + 1 => (w.after calls).next?.2

/-- `n` steps complete the expression, and all ways to take them agree. -/
structure Agree (e : Expression) (n : Nat) : Prop where
  pos : 0 < n
  /-- Each of the steps succeeds, and the last one and no other completes. -/
  next_after : ∀ k < n, ∃ v, (e.after k).next = (.ok v, e.after (k + 1)) ∧
    (v.complete = true ↔ k + 1 = n)
  /-- A walk hands out the answers to the single steps, and then nothing more. -/
  walk_next? : ∀ calls, (e.walk.after calls).next?.1 =
    if calls < n then some (e.after calls).next.1 else none
  walk_expression : ∀ calls, (e.walk.after calls).expression = e.after (min calls n)
  outcomes_eq : e.outcomes = (List.range n).map fun k => (e.after k).next.1
  /-- A run gives the last of the answers, and leaves what the last step leaves. -/
  evaluateAll_eq : e.evaluateAll = ((e.after (n - 1)).next.1, e.after n)
  /-- It makes no difference how many steps have been taken singly before a run. -/
  evaluateAll_after : ∀ k < n, (e.after k).evaluateAll = e.evaluateAll

/-- The outcome of a further step in a complete state. -/
def idleOutcome (e : Expression) (text : String) : Evaluation :=
  { complete := true, value := .ofText text, tokens := e.tokens, blocks := e.blocks }

/-- A single number is left, and whichever way a step is taken, it is counted and
otherwise leaves things as they are. -/
structure Idle (e : Expression) (text : String) : Prop where
  tokens_eq : e.tokens = [.number text]
  next_eq : e.next = (.ok (e.idleOutcome text), { e with steps := e.steps + 1 })
  evaluateAll_eq : e.evaluateAll = (.ok (e.idleOutcome text), { e with steps := e.steps + 1 })
  walk_next?_eq : e.walk.next? =
    (some (.ok (e.idleOutcome text)), ⟨{ e with steps := e.steps + 1 }, true⟩)
  outcomes_eq : e.outcomes = [.ok (e.idleOutcome text)]

variable {e : Expression} {tree : Tree}

/-! ## Walks -/

theorem walk_next?_after (h : Reads 3 e.tokens tree) (k : Nat) :
    Walk.next? ⟨e.after k, false⟩ =
      (some (e.after k).next.1, ⟨e.after (k + 1), (e.after (k + 1)).isComplete⟩) := by
  obtain ⟨tree', htree', _⟩ := exists_reads_after h k
  rw [Expression.next_after h k]
  exact walk_next?_eq htree'

/-- A walk stops where the expression is complete for the first time. -/
theorem walk_after (h : Reads 3 e.tokens tree) (calls : Nat) :
    e.walk.after calls =
      ⟨e.after (min calls (stepsNeeded e.tokens)), decide (stepsNeeded e.tokens ≤ calls)⟩ := by
  induction calls with
  | zero =>
      have hpos := stepsNeeded_pos e.tokens
      rw [Nat.zero_min, decide_eq_false (by omega)]
      rfl
  | succ calls ih =>
      rw [Walk.after, ih]
      by_cases hcalls : calls < stepsNeeded e.tokens
      · have hcomplete : (e.after (calls + 1)).isComplete =
            decide (stepsNeeded e.tokens ≤ calls + 1) := by
          rw [Bool.eq_iff_iff, decide_eq_true_iff, isComplete, beq_iff_eq,
            length_tokens_after h hcalls]
          omega
        rw [Nat.min_eq_left (by omega), Nat.min_eq_left (by omega), decide_eq_false (by omega),
          walk_next?_after h, hcomplete]
      · rw [Nat.min_eq_right (by omega), Nat.min_eq_right (by omega), decide_eq_true (by omega),
          decide_eq_true (by omega)]
        rfl

theorem walk_after_next? (h : Reads 3 e.tokens tree) (calls : Nat) :
    (e.walk.after calls).next?.1 =
      if calls < stepsNeeded e.tokens then some (e.after calls).next.1 else none := by
  rw [walk_after h]
  split
  · next hcalls =>
    rw [Nat.min_eq_left (by omega), decide_eq_false (by omega), walk_next?_after h]
  · next hcalls =>
    rw [decide_eq_true (by omega)]
    rfl

/-! ## Runs -/

theorem evaluateAll_after_eq (h : Reads 3 e.tokens tree) {k : Nat}
    (hk : k < stepsNeeded e.tokens) : (e.after k).evaluateAll = e.evaluateAll := by
  obtain ⟨tree', htree', _⟩ := exists_reads_after h k
  rw [Expression.evaluateAll_eq htree', Expression.evaluateAll_eq h, stepsNeeded_after h hk,
    ← after_add, Nat.add_sub_cancel' (Nat.le_of_lt hk)]

theorem agree_of_reads (h : Reads 3 e.tokens tree) : Agree e (stepsNeeded e.tokens) where
  pos := stepsNeeded_pos e.tokens
  next_after k hk := by
    refine ⟨_, Expression.next_after h k, ?_⟩
    rw [← length_tokens_after h hk]
    exact beq_iff_eq
  walk_next? := walk_after_next? h
  walk_expression calls := by rw [walk_after h]
  outcomes_eq := Expression.outcomes_eq h
  evaluateAll_eq := by
    have hpos := stepsNeeded_pos e.tokens
    rw [Expression.evaluateAll_eq h, Expression.next_after h, Nat.sub_add_cancel hpos]
  evaluateAll_after k hk := evaluateAll_after_eq h hk

/-! ## Complete states -/

theorem parseWith_value_eq {b : Bindings} {text : String} (h : parseWith b text = .ok e) :
    e.value = startValue e.tokens := by
  simp only [parseWith] at h
  split at h
  · cases h
  · cases h
    rfl

theorem Parsed.value_eq (h : e.Parsed) : e.value = startValue e.tokens := by
  cases h with
  | ofText h => exact parseWith_value_eq h
  | ofInput h =>
      obtain ⟨b, text, e', he', rfl⟩ := exists_parseWith_of_parse h
      have hvalue := parseWith_value_eq he'
      exact hvalue

/-- Where a single number is left the value is that of its text: the last step put the
number there, or the value was taken from it by parsing. -/
theorem Parsed.value_after (h : e.Parsed) {n : Nat} {text : String}
    (htokens : (e.after n).tokens = [.number text]) : (e.after n).value = .ofText text := by
  cases n with
  | zero =>
      have htokens : e.tokens = [.number text] := htokens
      have hvalue := h.value_eq
      rw [htokens] at hvalue
      exact hvalue
  | succ n =>
      obtain ⟨tree, hreads⟩ := h.exists_reads
      obtain ⟨x, b, result, _, hafter, _⟩ := exists_steps_after hreads n
      rw [hafter] at htokens ⊢
      obtain rfl : result = text := Redex.text_eq_of_reduced htokens
      rfl

/-- A further step in a complete state is counted and changes nothing else. -/
theorem Parsed.after_succ_of_complete (h : e.Parsed) {n : Nat} {text : String}
    (htokens : (e.after n).tokens = [.number text]) :
    e.after (n + 1) = { e.after n with steps := (e.after n).steps + 1 } := by
  obtain ⟨tree, hreads⟩ := h.exists_reads
  obtain ⟨x, b, result, _, hafter, _⟩ := exists_steps_after hreads n
  have hreads' : Reads 3 (e.after n).tokens (.literal text) := by
    rw [htokens]
    exact (Reads.literal text).lift (Nat.zero_le 3)
  have hreduced : x.reduced result = [.number text] := by
    have hend := (after_stepsNeeded hreads').1
    rw [htokens] at hend
    have hlast : (e.after (n + 1)).tokens = [.number text] := hend
    rwa [hafter] at hlast
  obtain rfl := Redex.text_eq_of_reduced hreduced
  rw [hafter, hreduced, ← htokens, stepped, ← h.blocks_after n, ← h.value_after htokens]

/-- A step that completes the expression is all there is to a walk and to a run. -/
theorem idle_of_next {text : String} (htokens : e.tokens = [.number text])
    (hnext : e.next = (.ok (e.idleOutcome text), { e with steps := e.steps + 1 })) :
    Idle e text where
  tokens_eq := htokens
  next_eq := hnext
  evaluateAll_eq := by rw [evaluateAll_eq_of_next hnext, idleOutcome, if_pos rfl]
  walk_next?_eq := by
    rw [walk, Walk.next?, hnext]
    rfl
  outcomes_eq := by rw [outcomes_eq_of_next hnext, idleOutcome, if_pos rfl]

theorem Parsed.idle_after (h : e.Parsed) {n : Nat} (hc : (e.after n).isComplete = true) :
    ∃ text, Idle (e.after n) text := by
  obtain ⟨tree, hreads⟩ := h.exists_reads
  obtain ⟨tree', hreads', _⟩ := exists_reads_after hreads n
  have htokens := hreads'.eq_number_of_length (beq_iff_eq.mp hc)
  have houtcome : (e.after (n + 1)).evaluation = (e.after n).idleOutcome tree'.result := by
    rw [h.after_succ_of_complete htokens, idleOutcome, ← h.value_after htokens, ← hc]
    rfl
  refine ⟨tree'.result, idle_of_next htokens ?_⟩
  rw [Expression.next_after hreads n, houtcome, h.after_succ_of_complete htokens]

/-! ## After any uses -/

/-- Whatever uses have been made of a parsed expression: the ways to reduce it further
agree, and when it is complete they all count a step and change nothing else. -/
theorem agree_use (h : e.Parsed) (uses : List Use) :
    Agree (e.use uses).2 (stepsNeeded (e.use uses).2.tokens) ∧
      ((e.use uses).2.isComplete = true → ∃ text, Idle (e.use uses).2 text) := by
  obtain ⟨tree, hreads⟩ := h.exists_reads
  obtain ⟨hlast, _⟩ := use_eq hreads uses
  rw [hlast]
  obtain ⟨tree', hreads', _⟩ := exists_reads_after hreads (e.stepsOf uses)
  exact ⟨agree_of_reads hreads', h.idle_after⟩

/-- A run after a walk that was left and a single step, and a step after the last. -/
theorem agree_use_nested :
    nested.Parsed ∧
      (nested.use [.walk 1]).2.next.2.evaluateAll = (nested.use [.walk 1]).2.evaluateAll ∧
      (nested.use [.walk 3]).2.isComplete = true ∧
      (nested.use [.walk 3]).2.next.2 = { (nested.use [.walk 3]).2 with steps := 4 } := by
  obtain ⟨hagree, _⟩ := agree_use parsed_nested [.walk 1]
  obtain ⟨_, hidle⟩ := agree_use parsed_nested [.walk 3]
  have hneeded : 1 < stepsNeeded (nested.use [.walk 1]).2.tokens := by decide +kernel
  have hcomplete : (nested.use [.walk 3]).2.isComplete = true := by decide +kernel
  have hsteps : (nested.use [.walk 3]).2.steps = 3 := by decide +kernel
  obtain ⟨text, hidle⟩ := hidle hcomplete
  refine ⟨parsed_nested, hagree.evaluateAll_after 1 hneeded, hcomplete, ?_⟩
  rw [hidle.next_eq, hsteps]

end Expression
end Stepwise
