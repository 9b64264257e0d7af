import Stepwise.Proofs.Block.Deepest
import Stepwise.Proofs.Block.Tiling
import Stepwise.Proofs.Structure.Check

/-!
# Which group is selected

Blocks are pieces between parentheses and know nothing of groups: nothing in a
block says that its ends are parentheses or that these belong together.  That the
selected block is a group all the same, the deepest one and of several the last,
comes from the sequence as a whole.  As the blocks tile it and have the depths of
its tokens, a deepest block cannot end with a `(`, which would lead still deeper, nor
begin behind a `)`.

Main statement: of an expression, the selected block is the last of the deepest
groups, and it is all of the expression if there is no group.
-/

namespace Stepwise

open Structure (Flat isBalanced Derives)

/-- The `)` at index `j` closes the group that the `(` at index `i` opens: of the
groups opened between them all are closed, and no other is. -/
structure Closes (tokens : List Token) (i j : Nat) : Prop where
  opening : tokens[i]? = some .opening
  closing : tokens[j]? = some .closing
  lt : i < j
  isBalanced : isBalanced 0 ((tokens.take j).drop (i + 1)) = true

/-- The block is a group without further groups, no token is deeper, and no group that
is opened after it is as deep. -/
structure LastDeepest (tokens : List Token) (b : Block) : Prop where
  closes : Closes tokens b.start (b.stop - 1)
  /-- Something stands between the parentheses. -/
  lt : b.start + 1 < b.stop - 1
  flat : ∀ i t, b.start < i → i < b.stop - 1 → tokens[i]? = some t → t.isParenthesis = false
  depthAt_start : depthAt tokens b.start = b.priority
  depthAt_le : ∀ i < tokens.length, depthAt tokens i ≤ b.priority
  depthAt_lt : ∀ i, b.start < i → tokens[i]? = some .opening → depthAt tokens i < b.priority

/-- The block is all of the tokens, at depth 0. -/
structure CoversAll (tokens : List Token) (b : Block) : Prop where
  start_eq : b.start = 0
  stop_eq : b.stop = tokens.length
  priority_eq : b.priority = 0

namespace Block

variable {tokens before inner after : List Token} {b : Block} {index : Nat}
  {valid : String → Prop}

/-! ## Depths and the selected block -/

theorem covered_of_isBalanced (h : isBalanced 0 tokens = true) :
    covered tokens = tokens.length := by
  refine if_neg ?_
  rcases List.eq_nil_or_concat tokens with rfl | ⟨front, t, rfl⟩
  · nofun
  · rw [List.concat_eq_append, List.getLast?_concat]
    intro hopening
    have hflat : Flat [] := fun _ hmem => absurd hmem List.not_mem_nil
    rw [List.concat_eq_append, Token.eq_opening_of_isOpening hopening,
      hflat.isBalanced_append_opening] at h
    cases h

/-- No token is deeper than the selected block. -/
theorem depthAt_le_of_deepest? (h : isBalanced 0 tokens = true)
    (hb : deepest? (cut tokens) = some b) (hindex : index < tokens.length) :
    depthAt tokens index ≤ b.priority := by
  obtain ⟨front, back, hblocks, hfront, hback⟩ := exists_split_of_deepest? hb
  have htiles := tiles_cut tokens
  rw [covered_of_isBalanced h] at htiles
  obtain ⟨c, hc, hstart, hstop⟩ := htiles.exists_mem (Nat.zero_le index) hindex
  rw [depthAt_of_mem_cut (neverBelow_of_isBalanced h) hc hstart hstop]
  rw [hblocks] at hc
  rcases List.mem_append.mp hc with hc | hc
  · exact hfront c hc
  · rcases List.mem_cons.mp hc with rfl | hc
    · exact Nat.le_refl _
    · exact Nat.le_of_lt (hback c hc)

theorem depthAt_lt_of_deepest? (h : isBalanced 0 tokens = true)
    (hb : deepest? (cut tokens) = some b) (hstop : b.stop ≤ index)
    (hindex : index < tokens.length) : depthAt tokens index < b.priority := by
  obtain ⟨front, back, hblocks, hfront, hback⟩ := exists_split_of_deepest? hb
  have htiles := tiles_cut tokens
  have hdepth := fun c hc => @depthAt_of_mem_cut index tokens c (neverBelow_of_isBalanced h) hc
  rw [covered_of_isBalanced h, hblocks] at htiles
  obtain ⟨_, _, htiles⟩ := htiles.split
  obtain ⟨c, hc, hcstart, hcstop⟩ := htiles.exists_mem hstop hindex
  rw [hdepth c (by simp [hblocks, hc]) hcstart hcstop]
  exact hback c hc

/-! ## The selected group -/

theorem closes_of_flat (hflat : Flat inner) :
    Closes (before ++ .opening :: (inner ++ .closing :: after)) before.length
      (before.length + 1 + inner.length) := by
  have hassoc : before ++ .opening :: (inner ++ .closing :: after) =
      (before ++ [.opening]) ++ (inner ++ .closing :: after) := by simp
  have hlength : (before ++ [Token.opening]).length = before.length + 1 := List.length_append
  refine ⟨?_, ?_, by omega, ?_⟩
  · simp
  · rw [hassoc, List.getElem?_append_right (by omega), hlength, Nat.add_sub_cancel_left,
      List.getElem?_append_right (Nat.le_refl _), Nat.sub_self]
    rfl
  · rw [hassoc, ← hlength, List.take_length_add_append, List.drop_left, List.take_left]
    simpa using hflat.isBalanced_append 0 []

theorem mem_of_getElem?_between {i : Nat} {t : Token} (hstart : before.length < i)
    (hstop : i < before.length + 1 + inner.length)
    (ht : (before ++ .opening :: (inner ++ .closing :: after))[i]? = some t) : t ∈ inner := by
  obtain ⟨k, rfl⟩ := Nat.exists_eq_add_of_lt hstart
  rw [List.getElem?_append_right (by omega), Nat.add_assoc, Nat.add_sub_cancel_left,
    List.getElem?_cons_succ, List.getElem?_append_left (by omega)] at ht
  exact List.mem_of_getElem? ht

/-- A group without further groups is the last of the deepest ones if its block is
selected. -/
theorem lastDeepest_of_group (hflat : Flat inner) (hne : inner ≠ [])
    (hb : isBalanced 0 (before ++ .opening :: (inner ++ .closing :: after)) = true)
    (hselected : deepest? (cut (before ++ .opening :: (inner ++ .closing :: after))) = some b)
    (hstart : b.start = before.length) (hstop : b.stop = before.length + (inner.length + 2)) :
    LastDeepest (before ++ .opening :: (inner ++ .closing :: after)) b := by
  have hpos : 0 < inner.length := List.length_pos_iff.mpr hne
  have hlast : b.stop - 1 = before.length + 1 + inner.length := by omega
  have hcloses := @closes_of_flat before inner after hflat
  rw [← hlast, ← hstart] at hcloses
  have hbetween : ∀ i t, b.start < i → i < b.stop - 1 →
      (before ++ .opening :: (inner ++ .closing :: after))[i]? = some t →
      t.isParenthesis = false := by
    intro i t hi hi' ht
    exact hflat t (mem_of_getElem?_between (hstart ▸ hi) (hlast ▸ hi') ht)
  exact
    { closes := hcloses
      lt := by omega
      flat := hbetween
      depthAt_start := depthAt_of_mem_cut (neverBelow_of_isBalanced hb)
        (mem_of_deepest? hselected) (Nat.le_refl _) (by omega)
      depthAt_le := fun i hi => depthAt_le_of_deepest? hb hselected hi
      depthAt_lt := by
        intro i hi hopening
        have hlt := (List.getElem?_eq_some_iff.mp hopening).1
        refine depthAt_lt_of_deepest? hb hselected ?_ hlt
        -- neither what stands between the parentheses nor the `)` is a `(`
        rcases Nat.lt_trichotomy i (b.stop - 1) with hinside | hend | hafter
        · exact Bool.noConfusion (hbetween i _ hi hinside hopening)
        · rw [hend] at hopening
          exact absurd (hcloses.closing.symm.trans hopening) (by decide)
        · omega }

/-- Of an expression, the selected block is the last of the deepest groups; without a
group it is all of the expression. -/
theorem exists_lastDeepest (h : Derives valid .expression tokens) :
    ∃ b, deepest? (cut tokens) = some b ∧ (Flat tokens → CoversAll tokens b) ∧
      (¬Flat tokens → LastDeepest tokens b) := by
  obtain ⟨x, b, htokens, hselected, hcovers⟩ := exists_deepest?_cut h
  obtain ⟨tree, hreads⟩ := exists_reads h
  obtain ⟨innerTree, hinner, _⟩ := x.exists_reads_reduced (htokens ▸ hreads)
  refine ⟨b, hselected, ?_⟩
  cases x with
  | whole inner flat =>
      rw [Redex.tokens_whole] at htokens
      subst htokens
      refine ⟨fun _ => ⟨hcovers.1, ?_, priority_eq_of_flat flat hselected⟩,
        fun hgroup => absurd flat hgroup⟩
      exact hcovers.2.trans (Nat.zero_add _)
  | group before inner after flat =>
      rw [Redex.tokens_group] at htokens
      subst htokens
      have hstop : b.stop = before.length + (inner.length + 2) := by
        rw [hcovers.2, Redex.before, Redex.region, List.length_cons, List.length_append]
        rfl
      refine ⟨fun hflat => ?_, fun _ => ?_⟩
      · exact Bool.noConfusion (hflat .opening (by simp))
      · exact lastDeepest_of_group flat hinner.derives.ne_nil h.isBalanced hselected hcovers.1 hstop

/-- Two groups are deepest, and the last one is selected. -/
theorem exists_lastDeepest_ties :
    let tokens : List Token := [.opening, .number "1", .operator .subtract, .opening, .number "2",
      .closing, .closing, .operator .power, .opening, .opening, .number "3", .closing, .closing]
    Derives Structure.IsLiteral .expression tokens ∧ ¬Flat tokens ∧
      deepest? (cut tokens) = some ⟨7, 2, 9, 12⟩ ∧ LastDeepest tokens ⟨7, 2, 9, 12⟩ := by
  intro tokens
  have hderives : Derives Structure.IsLiteral .expression tokens :=
    Structure.derives_of_fault?_eq_none (by decide) (by decide)
  have hgroup : ¬Flat tokens := fun hflat => Bool.noConfusion (hflat .opening List.mem_cons_self)
  have hselected : deepest? (cut tokens) = some ⟨7, 2, 9, 12⟩ := by decide
  obtain ⟨b, hb, _, hlast⟩ := exists_lastDeepest hderives
  obtain rfl := Option.some_inj.mp (hselected.symm.trans hb)
  exact ⟨hderives, hgroup, hselected, hlast hgroup⟩

end Block
end Stepwise
