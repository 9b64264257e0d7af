import Stepwise.Proofs.Reduction.Redex

/-!
# The deepest block

A block has the depth at which it ends, so that the block of a group is as deep
as the group, and only blocks after it can be as deep without being deeper.
Main statement: of a sequence with a tree, the block that is selected covers a
redex.
-/

namespace Stepwise

namespace Block

open Structure (Flat isBalanced)

variable {id depth start index : Nat} {tokens rest inner : List Token} {b best : Block}
  {blocks : List Block}

/-! ## Selecting -/

theorem deepest?_cons_of_le (h : deepest? blocks = some best) (hle : b.priority ≤ best.priority) :
    deepest? (b :: blocks) = some best := by
  simp [deepest?, h, hle]

theorem deepest?_cons_of_lt (h : ∀ best ∈ deepest? blocks, best.priority < b.priority) :
    deepest? (b :: blocks) = some b := by
  rw [deepest?]
  split
  · next best heq => exact if_neg (Nat.not_le.mpr (h best heq))
  · rfl

theorem deepest?_eq_none_iff : deepest? blocks = none ↔ blocks = [] := by
  cases blocks with
  | nil => exact iff_of_true rfl rfl
  | cons b rest =>
      refine iff_of_false ?_ (List.cons_ne_nil b rest)
      rw [deepest?]
      split
      · split <;> nofun
      · nofun

/-- What is selected is one of the blocks, none before it is deeper, and all after it
are less deep. -/
theorem exists_split_of_deepest? : ∀ {blocks : List Block} {b : Block},
    deepest? blocks = some b → ∃ front back, blocks = front ++ b :: back ∧
      (∀ c ∈ front, c.priority ≤ b.priority) ∧ ∀ c ∈ back, c.priority < b.priority
  | [], _, h => by cases h
  | c :: rest, _, h => by
      rw [deepest?] at h
      split at h
      · next best hbest =>
        obtain ⟨front, back, rfl, hfront, hback⟩ := exists_split_of_deepest? hbest
        split at h
        · next hle =>
          cases h
          exact ⟨c :: front, back, rfl, List.forall_mem_cons.mpr ⟨hle, hfront⟩, hback⟩
        · next hlt =>
          cases h
          have hlt := Nat.not_le.mp hlt
          refine ⟨[], _, rfl, fun _ hmem => absurd hmem List.not_mem_nil, ?_⟩
          refine List.forall_mem_append.mpr ⟨?_, List.forall_mem_cons.mpr ⟨hlt, ?_⟩⟩
          · exact fun d hd => Nat.lt_of_le_of_lt (hfront d hd) hlt
          · exact fun d hd => Nat.lt_trans (hback d hd) hlt
      · next hnone =>
        cases h
        obtain rfl := deepest?_eq_none_iff.mp hnone
        exact ⟨[], [], rfl, fun _ hmem => absurd hmem List.not_mem_nil,
          fun _ hmem => absurd hmem List.not_mem_nil⟩

theorem mem_of_deepest? (h : deepest? blocks = some b) : b ∈ blocks := by
  obtain ⟨front, back, rfl, _⟩ := exists_split_of_deepest? h
  exact List.mem_append_right front List.mem_cons_self

/-! ## Cutting, token by token -/

@[simp] theorem cutFrom_nil : cutFrom id depth start index [] = [] := rfl

@[simp] theorem cutFrom_opening : cutFrom id depth start index (.opening :: rest) =
    ⟨id, depth, start, index⟩ :: cutFrom (id + 1) (depth + 1) index (index + 1) rest := rfl

@[simp] theorem cutFrom_closing : cutFrom id depth start index (.closing :: rest) =
    ⟨id, depth, start, index + 1⟩ ::
      cutFrom (id + 1) (depth - 1) (index + 1) (index + 1) rest := rfl

theorem cutFrom_cons_of_ne_nil {t : Token} (ht : t.isParenthesis = false) (h : rest ≠ []) :
    cutFrom id depth start index (t :: rest) = cutFrom id depth start (index + 1) rest := by
  simp [cutFrom, Token.isOpening, Token.isClosing, ht, h]

theorem cutFrom_singleton {t : Token} (ht : t.isParenthesis = false) :
    cutFrom id depth start index [t] = [⟨id, depth, start, index + 1⟩] := by
  simp [cutFrom, Token.isOpening, Token.isClosing, ht]

theorem cutFrom_flat_append (hflat : Flat inner) (h : rest ≠ []) :
    cutFrom id depth start index (inner ++ rest) =
      cutFrom id depth start (index + inner.length) rest := by
  induction inner generalizing index with
  | nil => rfl
  | cons t inner ih =>
      obtain ⟨ht, hinner⟩ := List.forall_mem_cons.mp hflat
      rw [List.cons_append, cutFrom_cons_of_ne_nil ht (by simp [h]), ih hinner, List.length_cons]
      congr 1
      omega

theorem cutFrom_flat (hflat : Flat inner) (h : inner ≠ []) :
    cutFrom id depth start index inner = [⟨id, depth, start, index + inner.length⟩] := by
  obtain ⟨front, t, rfl⟩ := List.eq_nil_or_concat inner |>.resolve_left h
  rw [List.concat_eq_append] at hflat ⊢
  have hfront : Flat front := fun u hu => hflat u (List.mem_append_left _ hu)
  have ht : t.isParenthesis = false := hflat t (List.mem_append_right _ List.mem_cons_self)
  rw [cutFrom_flat_append hfront (List.cons_ne_nil _ _), cutFrom_singleton ht, List.length_append]
  rfl

theorem deepest?_cutFrom_flat (hflat : Flat inner) (h : inner ≠ []) :
    deepest? (cutFrom id depth start index inner) =
      some ⟨id, depth, start, index + inner.length⟩ := by
  rw [cutFrom_flat hflat h]
  rfl

theorem priority_eq_of_flat (hflat : Flat inner)
    (h : best ∈ deepest? (cutFrom id depth start index inner)) : best.priority = depth := by
  by_cases hinner : inner = []
  · subst hinner
    cases h
  · rw [deepest?_cutFrom_flat hflat hinner] at h
    cases h
    rfl

theorem stop_le_of_mem_cutFrom {id depth start index : Nat} :
    ∀ b ∈ cutFrom id depth start index tokens, b.stop ≤ index + tokens.length := by
  fun_induction cutFrom id depth start index tokens with
  | case1 => exact fun b hb => absurd hb List.not_mem_nil
  | case2 id depth start index t rest _ ih =>
      refine List.forall_mem_cons.mpr ⟨Nat.le_add_right _ _, ?_⟩
      intro b hb
      have := ih b hb
      rw [List.length_cons]
      omega
  | case3 id depth start index t rest _ _ ih =>
      refine List.forall_mem_cons.mpr ⟨?_, ?_⟩
      · show index + 1 ≤ _
        rw [List.length_cons]
        omega
      · intro b hb
        have := ih b hb
        rw [List.length_cons]
        omega
  | case4 id depth start index t rest _ _ _ =>
      refine List.forall_mem_singleton.mpr ?_
      show index + 1 ≤ _
      rw [List.length_cons]
      omega
  | case5 id depth start index t rest _ _ _ ih =>
      intro b hb
      have := ih b hb
      rw [List.length_cons]
      omega

/-! ## The block of an innermost group -/

theorem flat_of_not_mem_opening (h : Token.opening ∉ tokens) (hp : ∀ t ∈ tokens, t.Proper)
    (hb : isBalanced 0 tokens = true) : Flat tokens := by
  induction tokens with
  | nil =>
      intro t ht
      exact absurd ht List.not_mem_nil
  | cons t tokens ih =>
      obtain ⟨ht, hrest⟩ := List.forall_mem_cons.mp hp
      have ih := ih (fun hmem => h (List.mem_cons_of_mem _ hmem)) hrest
      cases ht with
      | number text => exact List.forall_mem_cons.mpr ⟨rfl, ih hb⟩
      | operator op => exact List.forall_mem_cons.mpr ⟨rfl, ih hb⟩
      | opening => exact absurd List.mem_cons_self h
      | closing => exact Bool.noConfusion hb

/-- What a selected block covers, of tokens at index `index` that follow a block
in progress from `start`: the rest of that block, up to its `)`, or a group among
the tokens. -/
inductive Found (depth start index : Nat) (tokens : List Token) (best : Block) : Prop
  | inProgress (inner after : List Token) : 0 < depth → Flat inner →
      tokens = inner ++ .closing :: after → best.priority = depth → best.start = start →
      best.stop = index + (inner.length + 1) → Found depth start index tokens best
  | group (before inner after : List Token) : Flat inner →
      tokens = before ++ .opening :: (inner ++ .closing :: after) →
      best.start = index + before.length → best.stop = best.start + (inner.length + 2) →
      Found depth start index tokens best

theorem Found.cons {t : Token} (ht : t.isParenthesis = false)
    (h : Found depth start (index + 1) tokens best) :
    Found depth start index (t :: tokens) best := by
  cases h with
  | inProgress inner after hpos hflat htokens hpriority hstart hstop =>
      refine .inProgress (t :: inner) after hpos (List.forall_mem_cons.mpr ⟨ht, hflat⟩)
        (by rw [htokens, List.cons_append]) hpriority hstart ?_
      rw [hstop, List.length_cons]
      omega
  | group before inner after hflat htokens hstart hstop =>
      refine .group (t :: before) inner after hflat (by rw [htokens, List.cons_append]) ?_ hstop
      rw [hstart, List.length_cons]
      omega

theorem Found.opening (h : Found (depth + 1) index (index + 1) tokens best) :
    Found depth start index (.opening :: tokens) best := by
  cases h with
  | inProgress inner after _ hflat htokens _ hstart hstop =>
      refine .group [] inner after hflat (by rw [htokens, List.nil_append]) hstart ?_
      omega
  | group before inner after hflat htokens hstart hstop =>
      refine .group (.opening :: before) inner after hflat ?_ ?_ hstop
      · rw [htokens, List.cons_append]
      · rw [hstart, List.length_cons]
        omega

/-- After a `)` only a group can be as deep as what it ends. -/
theorem Found.closing (h : Found (depth - 1) (index + 1) (index + 1) tokens best)
    (hpos : 0 < depth) (hle : depth ≤ best.priority) :
    Found depth start index (.closing :: tokens) best := by
  cases h with
  | inProgress _ _ _ _ _ hpriority _ _ => omega
  | group before inner after hflat htokens hstart hstop =>
      refine .group (.closing :: before) inner after hflat ?_ ?_ hstop
      · rw [htokens, List.cons_append]
      · rw [hstart, List.length_cons]
        omega

/-- Where a group is open or will be opened, the block that is selected is that
of a group without further groups.  By induction along the tokens; the block
that a `)` ends is deeper than all groups after it, or one of them is as deep and
comes later. -/
theorem exists_deepest?_cutFrom : ∀ {tokens : List Token} {id depth start index : Nat},
    (∀ t ∈ tokens, t.Proper) → isBalanced depth tokens = true →
    0 < depth ∨ Token.opening ∈ tokens →
    ∃ best, deepest? (cutFrom id depth start index tokens) = some best ∧
      depth ≤ best.priority ∧ Found depth start index tokens best
  | [], _, _, _, _, _, hb, h => by
      rcases h with h | h
      · simp at hb
        omega
      · exact absurd h List.not_mem_nil
  | t :: tokens, id, depth, start, index, hp, hb, h => by
      obtain ⟨ht, hrest⟩ := List.forall_mem_cons.mp hp
      have hplain : t.isParenthesis = false → t ≠ .opening →
          ∃ best, deepest? (cutFrom id depth start index (t :: tokens)) = some best ∧
            depth ≤ best.priority ∧ Found depth start index (t :: tokens) best := by
        intro ht hne
        rw [Structure.isBalanced_of_not_isParenthesis ht] at hb
        have h' : 0 < depth ∨ Token.opening ∈ tokens :=
          h.imp_right fun hmem => (List.mem_cons.mp hmem).resolve_left hne.symm
        obtain ⟨best, hbest, hle, hfound⟩ := exists_deepest?_cutFrom hrest hb h'
        refine ⟨best, ?_, hle, hfound.cons ht⟩
        rw [cutFrom_cons_of_ne_nil ht ?_, hbest]
        rintro rfl
        cases hbest
      cases ht with
      | number text => exact hplain rfl (by simp [Token.number, Token.opening])
      | operator op => exact hplain rfl (by simp [Token.operator, Token.opening])
      | opening =>
          obtain ⟨best, hbest, hle, hfound⟩ :=
            exists_deepest?_cutFrom hrest hb (.inl (Nat.succ_pos depth))
          exact ⟨best, deepest?_cons_of_le hbest (Nat.le_of_succ_le hle),
            Nat.le_of_succ_le hle, hfound.opening⟩
      | closing =>
          obtain ⟨hdepth, hb⟩ : 0 < depth ∧ isBalanced (depth - 1) tokens = true := by
            simpa [Nat.pos_iff_ne_zero] using hb
          have hflat : Flat [] := fun _ hu => absurd hu List.not_mem_nil
          -- what the `)` ends is selected when it is deeper than all that comes after
          have hself : (∀ best ∈ deepest?
                (cutFrom (id + 1) (depth - 1) (index + 1) (index + 1) tokens),
                best.priority < depth) →
              ∃ best, deepest? (cutFrom id depth start index (.closing :: tokens)) = some best ∧
                depth ≤ best.priority ∧ Found depth start index (.closing :: tokens) best := by
            intro hlt
            exact ⟨_, deepest?_cons_of_lt hlt, Nat.le_refl depth,
              .inProgress [] tokens hdepth hflat rfl rfl rfl rfl⟩
          by_cases h' : 0 < depth - 1 ∨ Token.opening ∈ tokens
          · obtain ⟨best, hbest, hle, hfound⟩ := @exists_deepest?_cutFrom tokens (id + 1)
              (depth - 1) (index + 1) (index + 1) hrest hb h'
            by_cases hdeep : depth ≤ best.priority
            · exact ⟨best, deepest?_cons_of_le hbest hdeep, hdeep, hfound.closing hdepth hdeep⟩
            · refine hself ?_
              intro c hc
              obtain rfl := Option.some_inj.mp (hbest.symm.trans hc)
              exact Nat.not_le.mp hdeep
          · obtain ⟨hone, hmem⟩ := not_or.mp h'
            refine hself ?_
            intro c hc
            obtain rfl : depth = 1 := by omega
            rw [priority_eq_of_flat (flat_of_not_mem_opening hmem hrest hb) hc]
            exact Nat.zero_lt_one

theorem exists_deepest?_cut {valid : String → Prop}
    (h : Structure.Derives valid .expression tokens) :
    ∃ (x : Redex) (b : Block), x.tokens = tokens ∧ deepest? (cut tokens) = some b ∧
      x.Covers b := by
  by_cases hmem : Token.opening ∈ tokens
  · obtain ⟨best, hbest, _, hfound⟩ := exists_deepest?_cutFrom h.proper h.isBalanced (.inr hmem)
    cases hfound with
    | inProgress _ _ hpos _ _ _ _ _ => exact absurd hpos (Nat.lt_irrefl 0)
    | group before inner after hflat htokens hstart hstop =>
        refine ⟨.group before inner after hflat, best, ?_, hbest, ?_, ?_⟩
        · rw [htokens, Redex.tokens_group]
        · simp [hstart, Redex.before]
        · simp [hstart, hstop, Redex.before, Redex.region]
  · have hflat := flat_of_not_mem_opening hmem h.proper h.isBalanced
    exact ⟨.whole tokens hflat, _, Redex.tokens_whole hflat,
      deepest?_cutFrom_flat hflat h.ne_nil, rfl, rfl⟩

end Block
end Stepwise
