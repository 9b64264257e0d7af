import Stepwise.Proofs.Expression.Tree

/-!
# Reducing tokens without parentheses

A pass over the operators of one tier puts a literal in the place of every
subtree at the level of that tier and leaves the tree above as it is.  What holds
between the passes is `Settled`: the tiers that have had their pass have no
operator left.  After the last pass there is one token, whose text is the result
of the tree.
-/

namespace Stepwise

namespace Reduction

variable {tier : Tier} {rank level : Nat} {before tokens done rest : List Token} {tree : Tree}

/-! ## One token of a pass -/

@[simp] theorem reduceTier_nil : reduceTier tier done [] = .ok done.reverse := rfl

@[simp] theorem reduceTier_number (text : String) :
    reduceTier tier done (.number text :: rest) = reduceTier tier (.number text :: done) rest :=
  rfl

theorem reduceTier_operator_of_ne {op : Operator} (h : op.tier ≠ tier) :
    reduceTier tier done (.operator op :: rest) =
      reduceTier tier (.operator op :: done) rest := by
  have : operatorOf? tier (.operator op) = none := by simp [operatorOf?, h]
  rw [reduceTier, this]

theorem reduceTier_operator {op : Operator} (h : op.tier = tier) (left right : String) :
    reduceTier tier (.number left :: done) (.operator op :: .number right :: rest) =
      reduceTier tier (.number (op.applyText left right) :: done) rest := by
  have : operatorOf? tier (.operator op) = some op := by simp [operatorOf?, h]
  rw [reduceTier, this]
  rfl

/-! ## What is left between passes -/

/-- No parentheses, and no operators of the tiers before `rank`. -/
def Settled (rank : Nat) (tokens : List Token) : Prop :=
  ∀ t ∈ tokens, t.isParenthesis = false ∧ ∀ op, t = .operator op → rank ≤ op.tier.rank

theorem Settled.mono (h : Settled rank tokens) (hle : level ≤ rank) : Settled level tokens := by
  intro t ht
  obtain ⟨hpar, hop⟩ := h t ht
  exact ⟨hpar, fun op heq => Nat.le_trans hle (hop op heq)⟩

theorem settled_zero (h : Structure.Flat tokens) : Settled 0 tokens := by
  intro t ht
  exact ⟨h t ht, fun _ _ => Nat.zero_le _⟩

theorem settled_number (text : String) : Settled rank [.number text] := by
  intro t ht
  obtain rfl := List.mem_singleton.mp ht
  exact ⟨rfl, nofun⟩

theorem settled_chain {op : Operator} :
    Settled rank (before ++ .operator op :: tokens) ↔
      Settled rank before ∧ rank ≤ op.tier.rank ∧ Settled rank tokens := by
  constructor
  · intro h
    refine ⟨fun t ht => h t (List.mem_append_left _ ht), ?_, fun t ht => h t ?_⟩
    · exact (h (.operator op) (List.mem_append_right _ List.mem_cons_self)).2 op rfl
    · exact List.mem_append_right _ (List.mem_cons_of_mem _ ht)
  · rintro ⟨hbefore, hle, htokens⟩ t ht
    rcases List.mem_append.mp ht with ht | ht
    · exact hbefore t ht
    · rcases List.mem_cons.mp ht with rfl | ht
      · refine ⟨rfl, fun op' h => ?_⟩
        exact Token.operator_injective h ▸ hle
      · exact htokens t ht

/-- Where no operator is left for the level of a tree, the tree is a literal. -/
theorem Settled.eq_number (h : Reads level tokens tree) (hs : Settled level tokens) :
    tokens = [.number tree.result] := by
  induction h with
  | literal text => rfl
  | group _ _ => exact Bool.noConfusion (hs _ List.mem_cons_self).1
  | single _ ih => exact ih (hs.mono (Nat.le_succ _))
  | node op hrank _ _ _ _ =>
      have := (settled_chain.mp hs).2.1
      omega

/-! ## A pass -/

/-- A pass over tokens in which the tiers before are settled settles its tier as
well and keeps the result.  Where it stands in a longer sequence the tokens done
before and the rest are not touched. -/
theorem exists_reduceTier_append (h : Reads level tokens tree)
    (hs : Settled tier.rank tokens) :
    ∃ left, (∃ tree', Reads level left tree' ∧ tree'.result = tree.result) ∧
      Settled (tier.rank + 1) left ∧
      ∀ done rest, reduceTier tier done (tokens ++ rest) =
        reduceTier tier (left.reverse ++ done) rest := by
  induction h with
  | literal text =>
      exact ⟨[.number text], ⟨_, .literal text, rfl⟩, settled_number text, fun _ _ => rfl⟩
  | group _ _ => exact Bool.noConfusion (hs _ List.mem_cons_self).1
  | single _ ih =>
      obtain ⟨left, ⟨tree', hread, hres⟩, hleft, hpass⟩ := ih hs
      exact ⟨left, ⟨tree', hread.single, hres⟩, hleft, hpass⟩
  | @node level first last l r op hrank hfirst hlast ih₁ ih₂ =>
      obtain ⟨hs₁, hle, hs₂⟩ := settled_chain.mp hs
      obtain ⟨left₁, ⟨tree₁, hread₁, hres₁⟩, hleft₁, hpass₁⟩ := ih₁ hs₁
      by_cases htier : op.tier = tier
      · -- the operator is reduced: by now its operands are single numbers
        subst htier
        have hone₁ : left₁ = [.number l.result] := by
          rw [← hres₁]
          exact (hleft₁.mono (by omega)).eq_number hread₁
        have hone₂ : last = [.number r.result] := (hs₂.mono (by omega)).eq_number hlast
        refine ⟨[.number (op.applyText l.result r.result)],
          ⟨_, (Reads.literal _).lift (Nat.zero_le _), rfl⟩, settled_number _, ?_⟩
        intro done rest
        rw [List.append_assoc, hpass₁, hone₁, hone₂]
        exact reduceTier_operator rfl l.result r.result
      · -- the operator is kept, between what the passes over its operands leave
        obtain ⟨left₂, ⟨tree₂, hread₂, hres₂⟩, hleft₂, hpass₂⟩ := ih₂ hs₂
        have hlt : tier.rank + 1 ≤ op.tier.rank := by
          rcases Nat.lt_or_eq_of_le hle with hlt | heq
          · exact hlt
          · exact absurd (Tier.rank_injective heq.symm) htier
        refine ⟨left₁ ++ .operator op :: left₂, ⟨.node op tree₁ tree₂,
          .node op hrank hread₁ hread₂, ?_⟩, settled_chain.mpr ⟨hleft₁, hlt, hleft₂⟩, ?_⟩
        · rw [Tree.result, Tree.result, hres₁, hres₂]
        · intro done rest
          rw [List.append_assoc, List.cons_append, hpass₁, reduceTier_operator_of_ne htier, hpass₂]
          simp

theorem exists_reduceTier (tier : Tier) (h : Reads level tokens tree)
    (hs : Settled tier.rank tokens) :
    ∃ left, (∃ tree', Reads level left tree' ∧ tree'.result = tree.result) ∧
      Settled (tier.rank + 1) left ∧ reduceTier tier [] tokens = .ok left := by
  obtain ⟨left, hread, hleft, hpass⟩ := exists_reduceTier_append h hs
  exact ⟨left, hread, hleft, by simpa using hpass [] []⟩

theorem reduceAll_eq (h : Reads 3 tokens tree) (hflat : Structure.Flat tokens) :
    reduceAll tokens = .ok [.number tree.result] := by
  obtain ⟨left₁, ⟨_, hread₁, hres₁⟩, hs₁, hpass₁⟩ :=
    exists_reduceTier .power h (settled_zero hflat)
  obtain ⟨left₂, ⟨_, hread₂, hres₂⟩, hs₂, hpass₂⟩ :=
    exists_reduceTier .product hread₁ hs₁
  obtain ⟨left₃, ⟨_, hread₃, hres₃⟩, hs₃, hpass₃⟩ :=
    exists_reduceTier .sum hread₂ hs₂
  have hone : left₃ = [.number tree.result] := by
    rw [← hres₁, ← hres₂, ← hres₃]
    exact hs₃.eq_number hread₃
  rw [← hone]
  simp [reduceAll, Tier.all, hpass₁, hpass₂, hpass₃, bind, Except.bind, pure, Except.pure]

/-! ## A block -/

theorem unwrap_of_flat (h : Structure.Flat tokens) : unwrap tokens = tokens := by
  cases tokens with
  | nil => rfl
  | cons t tokens => simp [unwrap, h t List.mem_cons_self]

theorem unwrap_group (tokens : List Token) :
    unwrap (.opening :: (tokens ++ [.closing])) = tokens := by
  simp [unwrap]

/-- Where a region of a tree stands, reducing it puts a number with the result of the
tree, whatever stands around it. -/
theorem reduceBlock_of_reads {region inner after : List Token} {b : Block}
    (hstart : b.start = before.length) (hstop : b.stop = before.length + region.length)
    (hunwrap : unwrap region = inner) (hflat : Structure.Flat inner) (h : Reads 3 inner tree) :
    reduceBlock (before ++ (region ++ after)) b =
      (.ok tree.result, before ++ .number tree.result :: after) := by
  have hregion : b.region (before ++ (region ++ after)) = region := by
    rw [Block.region, hstart, hstop, List.drop_left, Nat.add_sub_cancel_left, List.take_left]
  have hbefore : (before ++ (region ++ after)).take b.start = before := by
    rw [hstart, List.take_left]
  have hafter : ((before ++ (region ++ after)).drop b.start).drop (b.stop - b.start) = after := by
    rw [hstart, hstop, List.drop_left, Nat.add_sub_cancel_left, List.drop_left]
  simp only [reduceBlock, hregion, hbefore, hafter, hunwrap, reduceAll_eq h hflat]
  simp

end Reduction
end Stepwise
