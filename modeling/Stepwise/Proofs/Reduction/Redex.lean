import Stepwise.Proofs.Reduction.Pass

/-!
# Where a sequence can be reduced

A redex is the whole of a sequence without parentheses, or an innermost group
with what stands around it.  Two facts are proved of every redex of a sequence
that has a tree, not only of the one that a step selects: reducing its block
leaves a number token in its place, and the sequence after has a tree with the
result of the one before.
-/

namespace Stepwise

open Structure (Flat)

/-- A sequence, taken apart at a place where it can be reduced. -/
inductive Redex where
  /-- The whole of a sequence without parentheses. -/
  | whole (inner : List Token) (flat : Flat inner)
  /-- An innermost group between what stands before and after it. -/
  | group (before inner after : List Token) (flat : Flat inner)

namespace Redex

/-- The tokens before the place. -/
def before : Redex → List Token
  | .whole _ _ => []
  | .group before _ _ _ => before

/-- The tokens without the parentheses around them. -/
def inner : Redex → List Token
  | .whole inner _ => inner
  | .group _ inner _ _ => inner

/-- The tokens after the place. -/
def after : Redex → List Token
  | .whole _ _ => []
  | .group _ _ after _ => after

/-- The tokens at the place, with the parentheses around them. -/
def region : Redex → List Token
  | .whole inner _ => inner
  | .group _ inner _ _ => .opening :: (inner ++ [.closing])

/-- The sequence that was taken apart. -/
def tokens (x : Redex) : List Token := x.before ++ (x.region ++ x.after)

/-- The sequence with a number at the place. -/
def reduced (x : Redex) (text : String) : List Token := x.before ++ .number text :: x.after

/-- The block covers the place. -/
def Covers (x : Redex) (b : Block) : Prop :=
  b.start = x.before.length ∧ b.stop = x.before.length + x.region.length

theorem flat : ∀ x : Redex, Flat x.inner
  | .whole _ h => h
  | .group _ _ _ h => h

@[simp] theorem tokens_whole {inner : List Token} (flat : Flat inner) :
    (whole inner flat).tokens = inner := List.append_nil inner

@[simp] theorem tokens_group {before inner after : List Token} (flat : Flat inner) :
    (group before inner after flat).tokens =
      before ++ .opening :: (inner ++ .closing :: after) := by
  simp [tokens, Redex.before, region, Redex.after]

@[simp] theorem reduced_whole {inner : List Token} (flat : Flat inner) (text : String) :
    (whole inner flat).reduced text = [.number text] := rfl

@[simp] theorem reduced_group {before inner after : List Token} (flat : Flat inner)
    (text : String) :
    (group before inner after flat).reduced text = before ++ .number text :: after := rfl

theorem reduced_eq_of_length {x : Redex} {text : String} (h : (x.reduced text).length = 1) :
    x.reduced text = [.number text] := by
  cases x with
  | whole inner flat => rfl
  | group before inner after flat =>
      rw [reduced_group, List.length_append, List.length_cons] at h
      have hbefore : before = [] := List.length_eq_zero_iff.mp (by omega)
      have hafter : after = [] := List.length_eq_zero_iff.mp (by omega)
      rw [reduced_group, hbefore, hafter, List.nil_append]

theorem text_eq_of_reduced {x : Redex} {text other : String}
    (h : x.reduced text = [.number other]) : text = other := by
  have hnumber := (reduced_eq_of_length (congrArg List.length h)).symm.trans h
  simpa [Token.number] using hnumber

/-! ## Reducing the block -/

theorem unwrap_region (x : Redex) : Reduction.unwrap x.region = x.inner := by
  cases x with
  | whole inner flat => exact Reduction.unwrap_of_flat flat
  | group before inner after flat => exact Reduction.unwrap_group inner

theorem Covers.region_eq {x : Redex} {b : Block} (h : x.Covers b) :
    b.region x.tokens = x.region := by
  rw [Block.region, tokens, h.1, h.2, List.drop_left, Nat.add_sub_cancel_left, List.take_left]

theorem Covers.reduced_eq {x : Redex} {b : Block} (h : x.Covers b) (text : String) :
    x.reduced text = x.tokens.take b.start ++ .number text :: x.tokens.drop b.stop := by
  have hafter : x.tokens.drop b.stop = x.after := by
    rw [tokens, ← List.append_assoc, h.2, ← List.length_append, List.drop_left]
  rw [hafter, tokens, h.1, List.take_left]
  rfl

/-- Reducing the block of a redex puts a number in its place.  It has the result
of the tree of the region as its text. -/
theorem reduceBlock_eq {x : Redex} {b : Block} (hcovers : x.Covers b) {tree : Tree}
    (h : Reads 3 x.inner tree) :
    Reduction.reduceBlock x.tokens b = (.ok tree.result, x.reduced tree.result) :=
  Reduction.reduceBlock_of_reads hcovers.1 hcovers.2 x.unwrap_region x.flat h

end Redex

/-! ## Where a group can lie

A group without further groups does not straddle the borders of what balances:
cut there, it would leave a parenthesis without its partner. -/

section Lie

variable {before inner after tokens first last : List Token}

theorem group_eq_or_mem (hflat : Flat inner) (hb : Structure.isBalanced 0 tokens = true)
    (h : .opening :: (tokens ++ [.closing]) = before ++ .opening :: (inner ++ .closing :: after)) :
    before = [] ∧ tokens = inner ∧ after = [] ∨
      ∃ before' after', before = .opening :: before' ∧ after = after' ++ [.closing] ∧
        tokens = before' ++ .opening :: (inner ++ .closing :: after') := by
  rcases List.eq_nil_or_concat after with rfl | ⟨after, final, rfl⟩
  · -- the last `)` is ours, so that the first `(` has to be ours too
    have hends : .opening :: tokens ++ [Token.closing] =
        (before ++ .opening :: inner) ++ [.closing] := by simpa using h
    have hfront := List.append_cancel_right hends
    cases before with
    | nil => exact .inl ⟨rfl, (List.cons.inj hfront).2, rfl⟩
    | cons t before =>
        have htokens : tokens = before ++ .opening :: inner := (List.cons.inj hfront).2
        rw [htokens, hflat.isBalanced_append_opening] at hb
        cases hb
  · obtain ⟨hfront, hfinal⟩ : .opening :: tokens =
          before ++ .opening :: (inner ++ .closing :: after) ∧ [Token.closing] = [final] :=
      List.append_inj' (by simpa using h) rfl
    cases before with
    | nil =>
        have htokens : tokens = inner ++ .closing :: after := (List.cons.inj hfront).2
        rw [htokens, hflat.isBalanced_append_closing] at hb
        cases hb
    | cons t before =>
        obtain ⟨ht, htokens⟩ := List.cons.inj hfront
        refine .inr ⟨before, after, by rw [ht], ?_, htokens⟩
        rw [hfinal, List.concat_eq_append]

/-- On either side of an operator it lies within one operand. -/
theorem group_mem_or_mem (hflat : Flat inner) (hb : Structure.isBalanced 0 first = true)
    {op : Operator}
    (h : first ++ .operator op :: last = before ++ .opening :: (inner ++ .closing :: after)) :
    (∃ after', after = after' ++ .operator op :: last ∧
        first = before ++ .opening :: (inner ++ .closing :: after')) ∨
      ∃ before', before = first ++ .operator op :: before' ∧
        last = before' ++ .opening :: (inner ++ .closing :: after) := by
  rcases List.append_eq_append_iff.mp h with ⟨middle, hbefore, hrest⟩ | ⟨middle, hfirst, hrest⟩
  · cases middle with
    | nil => cases (List.cons.inj hrest).1
    | cons t middle =>
        obtain ⟨ht, hlast⟩ := List.cons.inj hrest
        exact .inr ⟨middle, by rw [hbefore, ht], hlast⟩
  · cases middle with
    | nil => cases (List.cons.inj hrest).1
    | cons t middle =>
        obtain ⟨ht, hrest'⟩ := List.cons.inj hrest
        rw [← ht] at hfirst
        rcases List.append_eq_append_iff.mp hrest' with ⟨more, hmiddle, hmore⟩ | ⟨more, hinner, _⟩
        · cases more with
          | nil => cases (List.cons.inj hmore).1
          | cons u more =>
              obtain ⟨hu, hafter⟩ := List.cons.inj hmore
              exact .inl ⟨more, hafter, by rw [hfirst, hmiddle, ← hu]⟩
        · -- the operator would stand in the group and `first` end there
          have hflat' : Flat middle := fun t ht => hflat t (hinner ▸ List.mem_append_left _ ht)
          rw [hfirst, hflat'.isBalanced_append_opening] at hb
          cases hb

end Lie

/-! ## The tree after a reduction -/

/-- Where a group without further groups stands in the tokens of a tree, what is
in it has a tree, and a number with its result can take its place. -/
theorem Reads.exists_replace {level : Nat} {tokens : List Token} {tree : Tree}
    (h : Reads level tokens tree) {inner : List Token} (hflat : Flat inner) :
    ∀ {before after : List Token},
      tokens = before ++ .opening :: (inner ++ .closing :: after) →
      ∃ innerTree, Reads 3 inner innerTree ∧
        ∃ tree', Reads level (before ++ .number innerTree.result :: after) tree' ∧
          tree'.result = tree.result := by
  induction h with
  | literal text =>
      intro before after heq
      have := congrArg List.length heq
      simp at this
      omega
  | @group tokens tree h ih =>
      intro before after heq
      rcases group_eq_or_mem hflat h.derives.isBalanced heq with
        ⟨rfl, rfl, rfl⟩ | ⟨before, after, rfl, rfl, htokens⟩
      · exact ⟨tree, h, _, .literal _, rfl⟩
      · obtain ⟨innerTree, hinner, tree', htree', hres⟩ := ih htokens
        refine ⟨innerTree, hinner, .group tree', ?_, hres⟩
        have hgroup : Reads 0 (.opening ::
            ((before ++ .number innerTree.result :: after) ++ [.closing])) (.group tree') :=
          .group htree'
        simpa using hgroup
  | single _ ih =>
      intro before after heq
      obtain ⟨innerTree, hinner, tree', htree', hres⟩ := ih heq
      exact ⟨innerTree, hinner, tree', htree'.single, hres⟩
  | @node level first last left right op hrank hfirst hlast ih₁ ih₂ =>
      intro before after heq
      rcases group_mem_or_mem hflat hfirst.derives.isBalanced heq with
        ⟨after, rfl, htokens⟩ | ⟨before, rfl, htokens⟩
      · obtain ⟨innerTree, hinner, tree', htree', hres⟩ := ih₁ htokens
        refine ⟨innerTree, hinner, .node op tree' right, ?_, ?_⟩
        · simpa using Reads.node op hrank htree' hlast
        · rw [Tree.result, Tree.result, hres]
      · obtain ⟨innerTree, hinner, tree', htree', hres⟩ := ih₂ htokens
        refine ⟨innerTree, hinner, .node op left tree', ?_, ?_⟩
        · simpa using Reads.node op hrank hfirst htree'
        · rw [Tree.result, Tree.result, hres]

/-- Reducing a redex of a sequence that has a tree leaves one that has a tree
with the same result. -/
theorem Redex.exists_reads_reduced (x : Redex) {tree : Tree} (h : Reads 3 x.tokens tree) :
    ∃ innerTree, Reads 3 x.inner innerTree ∧
      ∃ tree', Reads 3 (x.reduced innerTree.result) tree' ∧ tree'.result = tree.result := by
  cases x with
  | whole inner flat =>
      rw [tokens_whole] at h
      exact ⟨tree, h, .literal tree.result, (Reads.literal _).lift (Nat.zero_le 3), rfl⟩
  | group before inner after flat =>
      exact h.exists_replace flat (tokens_group flat)

end Stepwise
