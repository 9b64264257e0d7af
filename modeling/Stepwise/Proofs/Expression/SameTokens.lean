import Stepwise.Proofs.Expression.Uses

/-!
# What the outcomes of steps depend on

An expression remembers its source, its parsed tokens, a value and a number of steps,
and no step looks at any of them.  So two expressions with the same tokens, wherever
these come from, go on alike: every use of them hands out the same outcomes.

The invariant is that the tokens are the same, and `next_of_tokens_eq` is the step that
keeps it.
-/

namespace Stepwise

namespace Expression

variable {e f : Expression} {tree : Tree}

/-- The outcomes that are handed out. -/
def outcomesOf (events : List Event) : List (Except ReductionError Evaluation) :=
  events.map Event.outcome

/-! ## Steps and runs -/

theorem next_of_tokens_eq (h : Reads 3 e.tokens tree) (htokens : f.tokens = e.tokens) :
    f.next.1 = e.next.1 ∧ f.next.2.tokens = e.next.2.tokens := by
  obtain ⟨x, b, text, hstep, _⟩ := exists_steps h
  rw [hstep.next_eq, (hstep.of_tokens_eq htokens).next_eq]
  exact ⟨rfl, rfl⟩

theorem tokens_after_of_tokens_eq (h : Reads 3 e.tokens tree) (htokens : f.tokens = e.tokens) :
    ∀ n, (f.after n).tokens = (e.after n).tokens
  | 0 => htokens
  | n + 1 => by
      obtain ⟨tree', htree', _⟩ := exists_reads_after h n
      exact (next_of_tokens_eq htree' (tokens_after_of_tokens_eq h htokens n)).2

theorem evaluateAll_of_tokens_eq (h : Reads 3 e.tokens tree) (htokens : f.tokens = e.tokens) :
    f.evaluateAll.1 = e.evaluateAll.1 ∧ f.evaluateAll.2.tokens = e.evaluateAll.2.tokens := by
  have hf : Reads 3 f.tokens tree := htokens ▸ h
  obtain ⟨n, hn⟩ := Nat.exists_eq_succ_of_ne_zero (Nat.ne_of_gt (stepsNeeded_pos e.tokens))
  obtain ⟨tree', htree', _⟩ := exists_reads_after h n
  have htokens' := tokens_after_of_tokens_eq h htokens
  have houtcome := (next_of_tokens_eq htree' (htokens' n)).1
  rw [next_after h, next_after hf] at houtcome
  rw [evaluateAll_eq h, evaluateAll_eq hf, htokens, hn]
  exact ⟨houtcome, htokens' (n + 1)⟩

/-! ## Uses -/

theorem take_of_tokens_eq (h : Reads 3 e.tokens tree) (htokens : f.tokens = e.tokens)
    (calls : Nat) :
    outcomesOf (f.walk.take calls).1 = outcomesOf (e.walk.take calls).1 ∧
      (f.walk.take calls).2.expression.tokens = (e.walk.take calls).2.expression.tokens := by
  induction calls generalizing e f tree with
  | zero => exact ⟨rfl, htokens⟩
  | succ calls ih =>
      have hf : Reads 3 f.tokens tree := htokens ▸ h
      have htokens' := tokens_after_of_tokens_eq h htokens 1
      have houtcome := (next_of_tokens_eq h htokens).1
      rw [next_eq h, next_eq hf] at houtcome
      have hcomplete : (f.after 1).isComplete = (e.after 1).isComplete := by
        rw [isComplete, isComplete, htokens']
      simp only [Walk.take, walk_next?_eq h, walk_next?_eq hf, hcomplete]
      cases (e.after 1).isComplete with
      | true =>
          simp only [take_of_ended]
          exact ⟨congrArg ([·]) houtcome, htokens'⟩
      | false =>
          obtain ⟨tree', htree', _⟩ := exists_reads_after h 1
          obtain ⟨hrest, hlast⟩ := ih htree' htokens'
          exact ⟨List.cons_eq_cons.mpr ⟨houtcome, hrest⟩, hlast⟩

theorem apply_of_tokens_eq (h : Reads 3 e.tokens tree) (htokens : f.tokens = e.tokens) (u : Use) :
    outcomesOf (u.apply f).1 = outcomesOf (u.apply e).1 ∧
      (u.apply f).2.tokens = (u.apply e).2.tokens := by
  cases u with
  | next =>
      obtain ⟨houtcome, htokens'⟩ := next_of_tokens_eq h htokens
      exact ⟨congrArg ([·]) houtcome, htokens'⟩
  | evaluateAll =>
      obtain ⟨houtcome, htokens'⟩ := evaluateAll_of_tokens_eq h htokens
      exact ⟨congrArg ([·]) houtcome, htokens'⟩
  | walk calls => exact take_of_tokens_eq h htokens calls

/-- Whatever uses are made of two expressions with the same tokens, they hand out the
same outcomes. -/
theorem use_of_tokens_eq (h : Reads 3 e.tokens tree) (htokens : f.tokens = e.tokens)
    (uses : List Use) : outcomesOf (f.use uses).1 = outcomesOf (e.use uses).1 := by
  induction uses generalizing e f tree with
  | nil => rfl
  | cons u uses ih =>
      obtain ⟨houtcomes, htokens'⟩ := apply_of_tokens_eq h htokens u
      obtain ⟨tree', htree', _⟩ := exists_reads_after h (u.steps e)
      rw [← (apply_eq h u).1] at htree'
      simp only [outcomesOf, use, List.map_append] at houtcomes ⊢
      rw [houtcomes]
      exact congrArg (_ ++ ·) (ih htree' htokens')

end Expression
end Stepwise
