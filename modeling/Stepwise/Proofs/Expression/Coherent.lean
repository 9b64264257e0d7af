import Stepwise.Proofs.Expression.Uses

/-!
# What holds of an expression in every state

An expression keeps its blocks beside its tokens, and a step changes the tokens,
the blocks, the value and the number of steps one after the other.  `Coherent` is
what these have to do with each other and with the expression as it was parsed,
and `Faithful` what an outcome has to do with the step it is the outcome of.  A
step that failed halfway would break both, and no step of a parsed expression
fails.

Main statement: whatever uses are made of a parsed expression, it stays coherent,
its number of steps is the number of reductions, and every outcome that is handed
out is faithful.
-/

namespace Stepwise

open Structure (Derives)

namespace Expression

/-- `e` is a state of the expression that was parsed to `origin`. -/
structure Coherent (origin e : Expression) : Prop where
  source_eq : e.source = origin.source
  parsed_eq : e.parsed = origin.parsed
  /-- The blocks are not those of an earlier state. -/
  blocks_eq : e.blocks = Block.cut e.tokens
  tokens_ne_nil : e.tokens ≠ []
  kind_ne_error : ∀ t ∈ e.tokens, t.kind ≠ .error
  isBalanced : Structure.isBalanced 0 e.tokens = true
  /-- The tokens are an expression, whatever the texts of its numbers. -/
  derives : Derives (fun _ => True) .expression e.tokens

/-- The event is that of a step of `origin`: its outcome describes the state it
leaves, with the value of the token that the step put in the place of the block
it had selected. -/
def Faithful (origin : Expression) (event : Event) : Prop :=
  ∃ v, event.outcome = .ok v ∧
    v.tokens = event.expression.tokens ∧ v.blocks = event.expression.blocks ∧
    v.complete = decide (event.expression.tokens.length = 1) ∧
    ∃ n b text, event.expression = origin.after (n + 1) ∧
      Block.deepest? (Block.cut (origin.after n).tokens) = some b ∧
      event.expression.tokens =
        (origin.after n).tokens.take b.start ++
          .number text :: (origin.after n).tokens.drop b.stop ∧
      v.value = .ofText text

variable {e : Expression} {tree : Tree}

/-! ## The state after parsing -/

theorem parseWith_blocks_eq {b : Bindings} {text : String} (h : parseWith b text = .ok e) :
    e.blocks = Block.cut e.tokens := by
  simp only [parseWith] at h
  split at h
  · cases h
  · cases h
    rfl

theorem Parsed.blocks_eq (h : e.Parsed) : e.blocks = Block.cut e.tokens := by
  cases h with
  | ofText h => exact parseWith_blocks_eq h
  | ofInput h =>
      obtain ⟨b, text, e', he', rfl⟩ := exists_parseWith_of_parse h
      have hblocks := parseWith_blocks_eq he'
      exact hblocks

/-! ## Every state -/

theorem Parsed.blocks_after (h : e.Parsed) : ∀ n, (e.after n).blocks = Block.cut (e.after n).tokens
  | 0 => h.blocks_eq
  | n + 1 => by
      obtain ⟨tree, hreads⟩ := h.exists_reads
      obtain ⟨x, b, text, _, hafter, _⟩ := exists_steps_after hreads n
      rw [hafter]
      rfl

theorem Parsed.coherent_after (h : e.Parsed) (n : Nat) : Coherent e (e.after n) := by
  obtain ⟨tree, hreads⟩ := h.exists_reads
  obtain ⟨tree', hreads', _⟩ := exists_reads_after hreads n
  obtain ⟨hsource, hparsed⟩ := source_after hreads n
  exact
    { source_eq := hsource
      parsed_eq := hparsed
      blocks_eq := h.blocks_after n
      tokens_ne_nil := hreads'.derives.ne_nil
      kind_ne_error := fun t ht => (hreads'.derives.proper t ht).kind_ne_error
      isBalanced := hreads'.derives.isBalanced
      derives := hreads'.derives }

/-- The event of a step is faithful. -/
theorem faithful_event (h : Reads 3 e.tokens tree) (n : Nat) : Faithful e (e.event n) := by
  obtain ⟨x, b, text, hstep, hafter, _⟩ := exists_steps_after h n
  refine ⟨(e.after (n + 1)).evaluation, rfl, rfl, rfl, rfl, n, b, text, rfl, hstep.selected, ?_, ?_⟩
  · show (e.after (n + 1)).tokens = _
    rw [hafter, ← hstep.tokens_eq]
    exact hstep.covers.reduced_eq text
  · rw [hafter]
    rfl

/-! ## Every use -/

/-- Whatever uses are made of a parsed expression: it stays coherent, every
reduction is counted as a step and nothing else is, and every outcome is that of
a step that succeeded. -/
theorem coherent_use (h : e.Parsed) (uses : List Use) :
    Coherent e (e.use uses).2 ∧
      ((e.use uses).2 = e.after (e.stepsOf uses) ∧ (e.use uses).2.steps = e.stepsOf uses) ∧
      ∀ event ∈ (e.use uses).1, Faithful e event := by
  obtain ⟨tree, hreads⟩ := h.exists_reads
  obtain ⟨hlast, hevents⟩ := use_eq hreads uses
  refine ⟨?_, ⟨hlast, ?_⟩, ?_⟩
  · rw [hlast]
    exact h.coherent_after _
  · rw [hlast, steps_after hreads, h.spec.2.1, Nat.zero_add]
  · intro event hmem
    obtain ⟨n, rfl⟩ := hevents event hmem
    exact faithful_event hreads n

/-- A walk that is left after its first outcome, and a step. -/
theorem coherent_use_nested :
    nested.Parsed ∧ Coherent nested (nested.use [.walk 1, .next]).2 ∧
      (nested.use [.walk 1, .next]).2.steps = 2 ∧
      (nested.use [.walk 1, .next]).1.length = 2 ∧
      ∀ event ∈ (nested.use [.walk 1, .next]).1, Faithful nested event := by
  obtain ⟨hcoherent, ⟨_, hsteps⟩, hevents⟩ := coherent_use parsed_nested [.walk 1, .next]
  have hcount : nested.stepsOf [.walk 1, .next] = 2 := by decide +kernel
  exact ⟨parsed_nested, hcoherent, hcount ▸ hsteps, by decide +kernel, hevents⟩

end Expression
end Stepwise
