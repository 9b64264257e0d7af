import Stepwise.Proofs.Expression.Count

/-!
# Reducing an expression to the end

A run takes steps one after the other.  The result of the tree is the same in
every state of it, and the run is over after `stepsNeeded` steps, when a single
token holds that result.  As the run depends on the tokens only, this also says
that a sequence has one result, whichever tree it is read with.

Main statements: reducing to the end computes the result of the syntax tree, and
no accepted expression fails, in a number of steps that is known beforehand.
-/

namespace Stepwise

namespace Expression

/-- The expression after `n` steps. -/
def after (e : Expression) : Nat → Expression
  | 0 => e
  | n + 1 => (e.after n).next.2

theorem after_add (e : Expression) (m n : Nat) : e.after (m + n) = (e.after m).after n := by
  induction n with
  | zero => rfl
  | succ n ih => exact congrArg (fun e => e.next.2) ih

theorem after_succ (e : Expression) (n : Nat) : e.after (n + 1) = (e.after 1).after n := by
  rw [Nat.add_comm, after_add]

variable {e : Expression} {tree : Tree}

/-! ## Every state of a run -/

theorem exists_reads_after (h : Reads 3 e.tokens tree) :
    ∀ n, ∃ tree', Reads 3 (e.after n).tokens tree' ∧ tree'.result = tree.result
  | 0 => ⟨tree, h, rfl⟩
  | n + 1 => by
      obtain ⟨tree₁, h₁, hres₁⟩ := exists_reads_after h n
      obtain ⟨x, b, text, hstep, tree₂, h₂, hres₂⟩ := exists_steps h₁
      refine ⟨tree₂, ?_, hres₂.trans hres₁⟩
      rw [after, hstep.next_eq]
      exact h₂

/-- In every state a step succeeds, and it leads to the next state. -/
theorem exists_steps_after (h : Reads 3 e.tokens tree) (n : Nat) :
    ∃ x b text, (e.after n).Steps x b text ∧
      e.after (n + 1) = (e.after n).stepped (x.reduced text) text ∧
      ∃ tree', Reads 3 (x.reduced text) tree' := by
  obtain ⟨tree₁, h₁, _⟩ := exists_reads_after h n
  obtain ⟨x, b, text, hstep, tree₂, h₂, _⟩ := exists_steps h₁
  exact ⟨x, b, text, hstep, by rw [after, hstep.next_eq], tree₂, h₂⟩

theorem next_after (h : Reads 3 e.tokens tree) (n : Nat) :
    (e.after n).next = (.ok (e.after (n + 1)).evaluation, e.after (n + 1)) := by
  obtain ⟨x, b, text, hstep, hafter, _⟩ := exists_steps_after h n
  rw [hafter, hstep.next_eq]

theorem next_eq (h : Reads 3 e.tokens tree) :
    e.next = (.ok (e.after 1).evaluation, e.after 1) :=
  next_after h 0

theorem steps_after (h : Reads 3 e.tokens tree) (n : Nat) : (e.after n).steps = e.steps + n := by
  induction n with
  | zero => rfl
  | succ n ih =>
      obtain ⟨x, b, text, _, hafter, _⟩ := exists_steps_after h n
      rw [hafter, stepped, ih, Nat.add_assoc]

theorem source_next (e : Expression) : e.next.2.source = e.source := by
  simp only [next]
  split
  · rfl
  · split
    · rfl
    · split <;> rfl

theorem source_evaluateAll (e : Expression) : e.evaluateAll.2.source = e.source := by
  fun_induction evaluateAll e with
  | case1 e failure after h =>
      have hsource := source_next e
      rwa [h] at hsource
  | case2 e outcome after h hc =>
      have hsource := source_next e
      rwa [h] at hsource
  | case3 e outcome after h hc ih =>
      have hsource := source_next e
      rw [h] at hsource
      exact ih.trans hsource

theorem source_after (h : Reads 3 e.tokens tree) (n : Nat) :
    (e.after n).source = e.source ∧ (e.after n).parsed = e.parsed := by
  induction n with
  | zero => exact ⟨rfl, rfl⟩
  | succ n ih =>
      obtain ⟨x, b, text, _, hafter, _⟩ := exists_steps_after h n
      rw [hafter]
      exact ih

theorem isComplete_after_one (h : Reads 3 e.tokens tree) (hc : e.isComplete = true) :
    (e.after 1).isComplete = true := by
  obtain ⟨x, b, text, hstep, hafter, tree', htree'⟩ := exists_steps_after h 0
  have hone : e.tokens.length = 1 := beq_iff_eq.mp hc
  have hpos := List.length_pos_iff.mpr htree'.derives.ne_nil
  have hle := length_reduced x text
  rw [hstep.tokens_eq, after, hone] at hle
  rw [hafter]
  exact beq_iff_eq.mpr (show (x.reduced text).length = 1 by omega)

/-! ## The end of a run -/

theorem stepsNeeded_after (h : Reads 3 e.tokens tree) {n : Nat} (hn : n < stepsNeeded e.tokens) :
    stepsNeeded (e.after n).tokens = stepsNeeded e.tokens - n := by
  induction n with
  | zero => rfl
  | succ n ih =>
      have ih := ih (Nat.lt_of_succ_lt hn)
      obtain ⟨x, b, text, hstep, hafter, tree', htree'⟩ := exists_steps_after h n
      have hneeded := hstep.stepsNeeded_eq htree'
      rw [hafter, stepped]
      split at hneeded
      · omega
      · simp only
        omega

/-- A single token is left after the last step and not before. -/
theorem length_tokens_after (h : Reads 3 e.tokens tree) {n : Nat}
    (hn : n < stepsNeeded e.tokens) :
    (e.after (n + 1)).tokens.length = 1 ↔ n + 1 = stepsNeeded e.tokens := by
  obtain ⟨x, b, text, hstep, hafter, tree', htree'⟩ := exists_steps_after h n
  have hneeded := hstep.stepsNeeded_eq htree'
  have hpos := stepsNeeded_pos (x.reduced text)
  rw [stepsNeeded_after h hn] at hneeded
  rw [hafter, stepped]
  simp only
  split at hneeded
  · next hone => exact iff_of_true hone (by omega)
  · next hone => exact iff_of_false hone (by omega)

theorem after_stepsNeeded (h : Reads 3 e.tokens tree) :
    (e.after (stepsNeeded e.tokens)).tokens = [.number tree.result] ∧
      (e.after (stepsNeeded e.tokens)).value = .ofText tree.result := by
  obtain ⟨n, hn⟩ := Nat.exists_eq_succ_of_ne_zero (Nat.ne_of_gt (stepsNeeded_pos e.tokens))
  have hlength := (length_tokens_after h (n := n) (by omega)).mpr hn.symm
  obtain ⟨tree', htree', hres⟩ := exists_reads_after h (n + 1)
  obtain ⟨x, b, text, _, hafter, _⟩ := exists_steps_after h n
  rw [hn]
  rw [hafter] at hlength htree' ⊢
  have htokens : x.reduced text = [.number tree.result] :=
    hres ▸ htree'.eq_number_of_length hlength
  exact ⟨htokens, congrArg Binary64.ofText (Redex.text_eq_of_reduced htokens)⟩

/-! ## Running to the end -/

theorem evaluateAll_eq_of_next {outcome : Evaluation} {after : Expression}
    (h : e.next = (.ok outcome, after)) :
    e.evaluateAll = if outcome.complete then (.ok outcome, after) else after.evaluateAll := by
  rw [evaluateAll]
  split
  · next heq => cases h.symm.trans heq
  · next heq =>
    cases h.symm.trans heq
    rfl

/-- Running to the end takes the steps that are needed, and no more. -/
theorem evaluateAll_eq (h : Reads 3 e.tokens tree) :
    e.evaluateAll = (.ok (e.after (stepsNeeded e.tokens)).evaluation,
      e.after (stepsNeeded e.tokens)) := by
  obtain ⟨n, hn⟩ : ∃ n, stepsNeeded e.tokens = n + 1 :=
    Nat.exists_eq_succ_of_ne_zero (Nat.ne_of_gt (stepsNeeded_pos e.tokens))
  induction n generalizing e tree with
  | zero =>
      have hlength := (length_tokens_after h (n := 0) (by omega)).mpr hn.symm
      rw [evaluateAll_eq_of_next (next_eq h), hn, if_pos]
      exact beq_iff_eq.mpr hlength
  | succ n ih =>
      have hlength := (not_congr (length_tokens_after h (n := 0) (by omega))).mpr (by omega)
      obtain ⟨tree', htree', _⟩ := exists_reads_after h 1
      have hneeded : stepsNeeded (e.after 1).tokens = n + 1 := by
        rw [stepsNeeded_after h (by omega), hn]
        omega
      rw [evaluateAll_eq_of_next (next_eq h), if_neg, ih htree' hneeded, hneeded, hn,
        after_succ e (n + 1)]
      intro hcomplete
      exact hlength (beq_iff_eq.mp hcomplete)

end Expression

/-! ## The result of a sequence -/

/-- The text is the result of the tokens, read with the grammar. -/
def HasResult (tokens : List Token) (text : String) : Prop :=
  ∃ tree, Reads 3 tokens tree ∧ tree.result = text

/-- A sequence has one result, whichever tree it is read with: it is what a run
over the sequence ends with. -/
theorem hasResult_iff {tokens : List Token} {tree : Tree} (h : Reads 3 tokens tree)
    {text : String} : HasResult tokens text ↔ text = tree.result := by
  constructor
  · rintro ⟨tree', htree', rfl⟩
    let e : Expression := ⟨"", [], tokens, [], .zero false, 0⟩
    have hend := (e.after_stepsNeeded h).1
    have hend' := (e.after_stepsNeeded htree').1
    have := hend'.symm.trans hend
    simpa [Token.number] using this
  · rintro rfl
    exact ⟨tree, h, rfl⟩

namespace Expression

/-- Reducing to the end computes the result of the syntax tree: the tokens of
every state have the same one result, and it is the text of the number that is
left and is read as its value. -/
theorem evaluateAll_result {e : Expression} (h : e.Parsed) :
    ∃ text, (∀ other, HasResult e.parsed other ↔ other = text) ∧
      (∀ n other, HasResult (e.after n).tokens other ↔ other = text) ∧
      ∃ outcome after, e.evaluateAll = (.ok outcome, after) ∧
        outcome.tokens = [.number text] ∧ outcome.value = .ofText text ∧
        after.tokens = [.number text] ∧ after.value = .ofText text := by
  obtain ⟨tree, hreads⟩ := h.exists_reads
  obtain ⟨htokens, hvalue⟩ := after_stepsNeeded hreads
  refine ⟨tree.result, ?_, ?_,
    _, _, evaluateAll_eq hreads, htokens, hvalue, htokens, hvalue⟩
  · intro other
    rw [h.spec.1, hasResult_iff hreads]
  · intro n other
    obtain ⟨tree', hreads', hres⟩ := exists_reads_after hreads n
    rw [hasResult_iff hreads', hres]

/-- A group within a group. -/
def nested : Expression := ofSource "2*(3-(1))"

theorem parsed_nested : nested.Parsed := parsed_ofSource rfl

/-- The tree of `nested`. -/
def nestedTree : Tree :=
  .node .multiply (.literal "2") (.group (.node .subtract (.literal "3") (.group (.literal "1"))))

theorem reads_nested : Reads 3 nested.tokens nestedTree := by
  have hinner := Reads.join .subtract (.number "3" 3) (Reads.group (.number "1" 3)).single.single
  exact (Reads.join .multiply (.number "2" 2) (Reads.group hinner).single).single

/-- Groups are reduced from the inside, and operators of all levels by precedence. -/
theorem evaluateAll_nested :
    (nested.Parsed ∧ ∃ outcome after, nested.evaluateAll = (.ok outcome, after) ∧
      outcome.tokens = [⟨.number, "4"⟩]) ∧
    (ofSource "8-2*3**2%5+6/4").Parsed ∧
      ∃ outcome after, (ofSource "8-2*3**2%5+6/4").evaluateAll = (.ok outcome, after) ∧
        outcome.tokens = [⟨.number, Tree.allLevels.result⟩] := by
  have hparsed : (ofSource "8-2*3**2%5+6/4").Parsed := parsed_ofSource rfl
  obtain ⟨text, hresult, _, outcome, after, hall, htokens, _⟩ := evaluateAll_result parsed_nested
  obtain ⟨text', hresult', _, outcome', after', hall', htokens', _⟩ := evaluateAll_result hparsed
  have htree : nestedTree.result = "4" := by decide +kernel
  have htext : "4" = text := (hresult "4").mp ⟨nestedTree, reads_nested, htree⟩
  have htext' : Tree.allLevels.result = text' :=
    (hresult' _).mp ⟨.allLevels, reads_allLevels, rfl⟩
  exact ⟨⟨parsed_nested, outcome, after, hall, htext ▸ htokens⟩, hparsed, outcome', after', hall',
    htext' ▸ htokens'⟩

/-- No accepted expression fails, and the number of its steps is known from its
tokens.  Each of them removes the operators of its block, as many operands, and
the parentheses of the block; only the last one completes the expression.  So an
input has no value only if it was rejected. -/
theorem steps_of_parsed :
    (∀ e : Expression, e.Parsed →
      (∀ n < stepsNeeded e.tokens,
        (e.after n).next = (.ok (e.after (n + 1)).evaluation, e.after (n + 1)) ∧
        (e.after (n + 1)).evaluation.complete = decide (n + 1 = stepsNeeded e.tokens) ∧
        ∃ b, Block.deepest? (Block.cut (e.after n).tokens) = some b ∧
          (e.after n).tokens.length = (e.after (n + 1)).tokens.length +
            (2 * (b.region (e.after n).tokens).countP Token.isOperator +
              if isGroup (b.region (e.after n).tokens) then 2 else 0)) ∧
      (e.after (stepsNeeded e.tokens)).tokens.length = 1 ∧
      ∃ outcome after, e.evaluateAll = (.ok outcome, after) ∧ after.steps = stepsNeeded e.tokens) ∧
    ∀ source failure, evaluate source = .error failure →
      ∃ reason, failure = .input reason ∧ parse source = .error reason := by
  constructor
  · intro e h
    obtain ⟨tree, hreads⟩ := h.exists_reads
    refine ⟨?_, ?_, _, _, evaluateAll_eq hreads, ?_⟩
    · intro n hn
      obtain ⟨x, b, text, hstep, hafter, _⟩ := exists_steps_after hreads n
      refine ⟨next_after hreads n, ?_, b, hstep.selected, ?_⟩
      · rw [Bool.eq_iff_iff, decide_eq_true_iff]
        exact beq_iff_eq.trans (length_tokens_after hreads hn)
      · rw [hafter]
        exact hstep.length_tokens_eq
    · rw [(after_stepsNeeded hreads).1]
      rfl
    · rw [steps_after hreads, h.spec.2.1, Nat.zero_add]
  · intro source failure h
    simp only [evaluate] at h
    split at h
    · next reason hparse =>
      cases h
      exact ⟨reason, rfl, hparse⟩
    · next e hparse =>
      obtain ⟨tree, hreads⟩ := (Parsed.ofInput hparse).exists_reads
      rw [evaluateAll_eq hreads] at h
      cases h

theorem steps_nested :
    (nested.Parsed ∧ stepsNeeded nested.tokens = 3 ∧ (nested.after 3).tokens.length = 1) ∧
      evaluate "2 3" = .error (.input (.missingOperator "2" "3")) ∧
      parse "2 3" = .error (.missingOperator "2" "3") := by
  obtain ⟨hparsed, hinput⟩ := steps_of_parsed
  have hneeded : stepsNeeded nested.tokens = 3 := by decide
  obtain ⟨_, hlast, _⟩ := hparsed nested parsed_nested
  rw [hneeded] at hlast
  have hfailure : evaluate "2 3" = .error (.input (.missingOperator "2" "3")) := rfl
  obtain ⟨reason, hreason, hparse⟩ := hinput _ _ hfailure
  cases hreason
  exact ⟨⟨parsed_nested, hneeded, hlast⟩, hfailure, hparse⟩

end Expression
end Stepwise
