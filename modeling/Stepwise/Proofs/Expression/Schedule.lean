import Stepwise.Proofs.Expression.Run

/-!
# The order of reductions

A step reduces the deepest block, and of several equally deep ones the last.  Any
group without further groups could be reduced as well.  A schedule is a sequence
of such choices, each made among the blocks that are cut anew, and it ends when a
single token is left.

Reductions of different groups shift each other's places, so that two schedules
cannot be compared block by block.  What they have in common are the result of
the tree and the number of steps that are still needed: every reduction keeps the
one and takes one off the other, whichever block it is of.

Main statement: no schedule fails or gets stuck, and all of them take the same
number of reductions as a run and end with the same token.
-/

namespace Stepwise

open Structure (Flat)

variable {tokens left : List Token} {b : Block} {n : Nat} {tree : Tree}

/-! ## Blocks that can be reduced -/

namespace Block

/-- The block is one of those that `tokens` are cut into, and it is a group without
further groups, or all of the tokens if no group is left. -/
inductive Ready (tokens : List Token) (b : Block) : Prop
  | group {inner : List Token} : b ∈ cut tokens → Flat inner →
      b.region tokens = .opening :: (inner ++ [.closing]) → Ready tokens b
  | whole : b ∈ cut tokens → Flat tokens → b.start = 0 → b.stop = tokens.length →
      Ready tokens b

theorem take_append_region_append_drop (h : b.start ≤ b.stop) :
    tokens.take b.start ++ (b.region tokens ++ tokens.drop b.stop) = tokens := by
  have hafter : tokens.drop b.stop = (tokens.drop b.start).drop (b.stop - b.start) := by
    rw [List.drop_drop, Nat.add_sub_cancel' h]
  rw [hafter, region, List.take_append_drop, List.take_append_drop]

theorem length_region (h : b.stop ≤ tokens.length) :
    (b.region tokens).length = b.stop - b.start := by
  rw [region, List.length_take, List.length_drop]
  omega

theorem Ready.exists_redex (h : Ready tokens b) :
    ∃ x : Redex, x.tokens = tokens ∧ x.Covers b := by
  cases h with
  | @group inner hmem hflat hregion =>
      have hstop : b.stop ≤ tokens.length := by
        have := stop_le_of_mem_cutFrom b hmem
        omega
      have hlength : (Token.opening :: (inner ++ [.closing])).length = b.stop - b.start := by
        rw [← hregion, length_region hstop]
      have hlt : b.start < b.stop := by
        rw [List.length_cons] at hlength
        omega
      have hbefore : (tokens.take b.start).length = b.start :=
        List.length_take_of_le (by omega)
      refine ⟨.group (tokens.take b.start) inner (tokens.drop b.stop) hflat, ?_, hbefore.symm, ?_⟩
      · calc (Redex.group (tokens.take b.start) inner (tokens.drop b.stop) hflat).tokens
            = tokens.take b.start ++ (b.region tokens ++ tokens.drop b.stop) := by
              rw [hregion, Redex.tokens_group]
              simp
          _ = tokens := take_append_region_append_drop (Nat.le_of_lt hlt)
      · show b.stop = (tokens.take b.start).length + (Token.opening :: (inner ++ [.closing])).length
        rw [hbefore, hlength, Nat.add_sub_cancel' (Nat.le_of_lt hlt)]
  | whole _ hflat hstart hstop =>
      refine ⟨.whole tokens hflat, Redex.tokens_whole hflat, hstart, ?_⟩
      show b.stop = 0 + tokens.length
      rw [hstop, Nat.zero_add]

theorem exists_ready (h : Reads 3 tokens tree) : ∃ b, Ready tokens b := by
  obtain ⟨x, b, rfl, hselected, hcovers⟩ := exists_deepest?_cut h.derives
  have hmem := mem_of_deepest? hselected
  refine ⟨b, ?_⟩
  cases x with
  | whole inner flat =>
      refine .whole hmem (by rwa [Redex.tokens_whole]) hcovers.1 ?_
      rw [hcovers.2, Redex.tokens_whole]
      exact Nat.zero_add _
  | group before inner after flat => exact .group hmem flat hcovers.region_eq

/-- Reducing a block that is ready succeeds, keeps the result of the tree and takes
one off the number of steps that are needed. -/
theorem Ready.exists_reduceBlock_eq (hb : Ready tokens b) (h : Reads 3 tokens tree) :
    ∃ text left, Reduction.reduceBlock tokens b = (.ok text, left) ∧
      (∃ tree', Reads 3 left tree' ∧ tree'.result = tree.result) ∧
      stepsNeeded tokens = if left.length = 1 then 1 else stepsNeeded left + 1 := by
  obtain ⟨x, rfl, hcovers⟩ := hb.exists_redex
  obtain ⟨innerTree, hinner, tree', htree', hres⟩ := x.exists_reads_reduced h
  exact ⟨_, _, Redex.reduceBlock_eq hcovers hinner, ⟨tree', htree', hres⟩,
    Redex.stepsNeeded_eq hinner htree'⟩

end Block

/-! ## Schedules -/

/-- A schedule that has made so many reductions and left these tokens has to go on:
it makes at least one reduction, and ends with a single token. -/
def Unfinished (reductions : Nat) (tokens : List Token) : Prop :=
  reductions = 0 ∨ tokens.length ≠ 1

theorem not_unfinished_iff : ¬Unfinished n tokens ↔ n ≠ 0 ∧ tokens.length = 1 := by
  rw [Unfinished, not_or, Decidable.not_not]

/-- Reducing blocks of `tokens` that are ready, one after the other, can lead to
`left` in `n` reductions. -/
inductive Schedule (tokens : List Token) : (n : Nat) → (left : List Token) → Prop
  | start : Schedule tokens 0 tokens
  | reduce {n : Nat} {left after : List Token} {b : Block} {text : String} :
      Schedule tokens n left → Unfinished n left → b.Ready left →
      Reduction.reduceBlock left b = (.ok text, after) → Schedule tokens (n + 1) after

/-- After any part of a schedule the tokens have a tree with the result of the
first, and as many reductions are needed as the schedule falls short of those
needed at first. -/
theorem Schedule.exists_reads (h : Schedule tokens n left) (hreads : Reads 3 tokens tree) :
    (∃ tree', Reads 3 left tree' ∧ tree'.result = tree.result) ∧
      (Unfinished n left → stepsNeeded tokens = n + stepsNeeded left) ∧
      (¬Unfinished n left → stepsNeeded tokens = n) := by
  induction h with
  | start =>
      refine ⟨⟨tree, hreads, rfl⟩, ?_, ?_⟩
      · intro _
        rw [Nat.zero_add]
      · intro hfinished
        exact absurd (.inl rfl) hfinished
  | @reduce n left after b text _ hunfinished hready hreduce ih =>
      obtain ⟨⟨tree₁, htree₁, hres₁⟩, hneeded, _⟩ := ih
      obtain ⟨text', after', hreduce', ⟨tree₂, htree₂, hres₂⟩, hstep⟩ :=
        hready.exists_reduceBlock_eq htree₁
      cases hreduce.symm.trans hreduce'
      have hneeded := hneeded hunfinished
      refine ⟨⟨tree₂, htree₂, hres₂.trans hres₁⟩, ?_, ?_⟩
      · intro hunfinished'
        have hlength : after.length ≠ 1 := hunfinished'.resolve_left (Nat.succ_ne_zero n)
        rw [if_neg hlength] at hstep
        omega
      · intro hfinished
        rw [if_pos (not_unfinished_iff.mp hfinished).2] at hstep
        omega

namespace Expression

/-- In whatever order the groups of a parsed expression are reduced: as long as a
schedule has to go on, some block is ready, and reducing any that is succeeds; and
it ends after as many reductions as a run, with the same token. -/
theorem schedule_agrees {e : Expression} (h : e.Parsed) :
    ∃ outcome last, e.evaluateAll = (.ok outcome, last) ∧
      ∀ n left, Schedule e.tokens n left →
        (Unfinished n left → n < last.steps ∧ (∃ b, Block.Ready left b) ∧
          ∀ b, Block.Ready left b →
            ∃ text after, Reduction.reduceBlock left b = (.ok text, after)) ∧
        (¬Unfinished n left → n = last.steps ∧ left = last.tokens) := by
  obtain ⟨tree, hreads⟩ := h.exists_reads
  refine ⟨_, _, evaluateAll_eq hreads, ?_⟩
  intro n left hschedule
  obtain ⟨⟨tree', htree', hres⟩, hneeded, hdone⟩ := hschedule.exists_reads hreads
  rw [steps_after hreads, h.spec.2.1, Nat.zero_add]
  constructor
  · intro hunfinished
    have hpos := stepsNeeded_pos left
    have hneeded := hneeded hunfinished
    refine ⟨by omega, Block.exists_ready htree', ?_⟩
    intro b hb
    obtain ⟨text, after, hreduce, _⟩ := hb.exists_reduceBlock_eq htree'
    exact ⟨text, after, hreduce⟩
  · intro hfinished
    have hlength := (not_unfinished_iff.mp hfinished).2
    refine ⟨(hdone hfinished).symm, ?_⟩
    rw [(after_stepsNeeded hreads).1, htree'.eq_number_of_length hlength, hres]

/-- Two groups side by side. -/
def sideBySide : Expression := ofSource "(1)*(2)"

/-- A schedule that begins with the first group, where a run begins with the
last. -/
theorem schedule_agrees_sideBySide :
    sideBySide.Parsed ∧
      Schedule sideBySide.tokens 1
        [.number "1", .operator .multiply, .opening, .number "2", .closing] ∧
      (sideBySide.after 1).tokens =
        [.opening, .number "1", .closing, .operator .multiply, .number "2"] ∧
      ∃ outcome last, sideBySide.evaluateAll = (.ok outcome, last) ∧ 1 < last.steps := by
  have hparsed : sideBySide.Parsed := @Parsed.ofText _ .empty "(1)*(2)" rfl
  have hready : Block.Ready sideBySide.tokens ⟨2, 1, 0, 3⟩ :=
    @Block.Ready.group _ _ [.number "1"] (by decide) (List.forall_mem_singleton.mpr rfl) rfl
  have hreduce : Reduction.reduceBlock sideBySide.tokens ⟨2, 1, 0, 3⟩ =
      (.ok "1", [.number "1", .operator .multiply, .opening, .number "2", .closing]) := rfl
  have hschedule := Schedule.start.reduce (.inl rfl) hready hreduce
  obtain ⟨outcome, last, hall, hschedules⟩ := schedule_agrees hparsed
  obtain ⟨hunfinished, _⟩ := hschedules _ _ hschedule
  exact ⟨hparsed, hschedule, by decide, outcome, last, hall, (hunfinished (.inr (by decide))).1⟩

end Expression
end Stepwise
