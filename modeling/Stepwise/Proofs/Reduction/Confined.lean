import Stepwise.Reduction

/-!
# What a reduction leaves alone

Nothing is asked of the tokens here: operands may be missing, may be operators or
parentheses, and the block may be empty, reversed, or reach past the end of a sequence it
was not cut from.  Every reduction takes two tokens away and stays within the region, so
that what stands before and after the block is the same after the call, also after one
that fails half-way.
-/

namespace Stepwise

namespace Reduction

variable {tier : Tier} {tokens left done before after : List Token} {b : Block}

/-! ## What is left of a region -/

/-- The tokens a pass leaves, whether or not it could be finished. -/
def leftOver : Except (List Token) (List Token) → List Token
  | .ok left => left
  | .error left => left

/-- Tokens are gone, in pairs. -/
def Shrunk (tokens left : List Token) : Prop :=
  ∃ count, tokens.length = left.length + 2 * count

theorem Shrunk.refl (tokens : List Token) : Shrunk tokens tokens := ⟨0, rfl⟩

theorem Shrunk.trans {middle : List Token} (h : Shrunk tokens middle) (h' : Shrunk middle left) :
    Shrunk tokens left := by
  obtain ⟨count, hcount⟩ := h
  obtain ⟨count', hcount'⟩ := h'
  exact ⟨count' + count, by omega⟩

theorem shrunk_reduceTier (tier : Tier) (done tokens : List Token) :
    Shrunk (done.reverse ++ tokens) (leftOver (reduceTier tier done tokens)) := by
  fun_induction reduceTier tier done tokens with
  | case1 done => simpa [leftOver] using Shrunk.refl done.reverse
  | case2 done t rest _ ih => simpa using ih
  | case3 t op _ left before right after result ih =>
      refine Shrunk.trans ⟨1, ?_⟩ ih
      simp
      omega
  | case4 done t rest => exact Shrunk.refl _

theorem shrunk_reduceAll (tokens : List Token) : Shrunk tokens (leftOver (reduceAll tokens)) := by
  rw [reduceAll]
  generalize Tier.all = tiers
  induction tiers generalizing tokens with
  | nil => exact Shrunk.refl tokens
  | cons tier tiers ih =>
      have hpass := shrunk_reduceTier tier [] tokens
      rw [List.foldlM_cons]
      cases h : reduceTier tier [] tokens with
      | error left => rwa [h] at hpass
      | ok left =>
          rw [h] at hpass
          exact hpass.trans (ih left)

/-- Parentheses are taken off in pairs. -/
theorem shrunk_unwrap (tokens : List Token) : Shrunk tokens (unwrap tokens) := by
  unfold unwrap
  split
  · next first rest =>
    split
    · next h =>
      have hne : rest ≠ [] := by
        rintro rfl
        simp at h
      have hpos := List.length_pos_iff.mpr hne
      refine ⟨1, ?_⟩
      rw [List.length_cons, List.length_dropLast]
      omega
    · exact Shrunk.refl _
  · exact Shrunk.refl _

/-! ## What is left of the sequence -/

/-- How a call ends when the region between `before` and `after` comes to an end. -/
def answerOf (b : Block) (before after : List Token) :
    Except (List Token) (List Token) → Except ReductionError String × List Token
  | .ok [] => (.error (.malformedBlock b.start b.stop), before ++ after)
  | .ok (result :: rest) => (.ok result.text, before ++ (result :: rest ++ after))
  | .error left => (.error (.malformedBlock b.start b.stop), before ++ (left ++ after))

variable {outcome : Except (List Token) (List Token)}

theorem answerOf_left :
    (answerOf b before after outcome).2 = before ++ (leftOver outcome ++ after) := by
  cases outcome with
  | error left => rfl
  | ok left => cases left <;> rfl

theorem exists_of_answerOf_eq_ok {text : String}
    (h : (answerOf b before after outcome).1 = .ok text) :
    ∃ t, (answerOf b before after outcome).2[before.length]? = some t ∧ t.text = text := by
  cases outcome with
  | error left => cases h
  | ok left =>
      cases left with
      | nil => cases h
      | cons t rest =>
          cases h
          exact ⟨t, by simp [answerOf], rfl⟩

theorem eq_of_answerOf_eq_error {e : ReductionError}
    (h : (answerOf b before after outcome).1 = .error e) : e = .malformedBlock b.start b.stop := by
  cases outcome with
  | error left => exact (Except.error.inj h).symm
  | ok left =>
      cases left with
      | nil => exact (Except.error.inj h).symm
      | cons _ _ => cases h

/-- The tokens before the block and from its end on are where they were, counted from
their end of the sequence, and tokens go in pairs.  An answer is the text at the start of
the block. -/
structure Confined (tokens : List Token) (b : Block) (answer : Except ReductionError String)
    (left : List Token) : Prop where
  take_isPrefix : tokens.take b.start <+: left
  drop_isSuffix : tokens.drop (min b.stop tokens.length) <:+ left
  /-- The two ends do not run into each other. -/
  length_le : b.start ≤ min b.stop tokens.length →
    b.start + (tokens.length - min b.stop tokens.length) ≤ left.length
  shrunk : Shrunk tokens left
  eq_of_le : min b.stop tokens.length ≤ b.start → left = tokens
  text_eq : ∀ text, answer = .ok text → ∃ t, left[b.start]? = some t ∧ t.text = text
  error_eq : ∀ e, answer = .error e → e = .malformedBlock b.start b.stop

theorem exists_split_of_lt (h : b.start < min b.stop tokens.length) :
    ∃ before region after, tokens = before ++ (region ++ after) ∧ before.length = b.start ∧
      region ≠ [] ∧ min b.stop tokens.length = b.start + region.length ∧
      reduceBlock tokens b = answerOf b before after (reduceAll (unwrap region)) := by
  refine ⟨tokens.take b.start, b.region tokens,
    (tokens.drop b.start).drop (b.stop - b.start), ?_, ?_, ?_, ?_, ?_⟩
  · rw [Block.region, List.take_append_drop, List.take_append_drop]
  · rw [List.length_take]
    omega
  · rw [← List.length_pos_iff, Block.region, List.length_take, List.length_drop]
    omega
  · rw [Block.region, List.length_take, List.length_drop]
    omega
  · rw [reduceBlock]
    cases reduceAll (unwrap (b.region tokens)) with
    | error left => simp [answerOf]
    | ok left => cases left <;> simp [answerOf]

theorem reduceBlock_of_le (h : min b.stop tokens.length ≤ b.start) :
    reduceBlock tokens b = (.error (.malformedBlock b.start b.stop), tokens) := by
  have hregion : b.region tokens = [] := by
    rw [← List.length_eq_zero_iff, Block.region, List.length_take, List.length_drop]
    omega
  have hafter : (tokens.drop b.start).drop (b.stop - b.start) = tokens.drop b.start := by
    rcases Nat.lt_or_ge b.start b.stop with hlt | hle
    · have hpast : tokens.length ≤ b.start := by omega
      rw [List.drop_of_length_le hpast, List.drop_nil]
    · rw [Nat.sub_eq_zero_of_le hle, List.drop_zero]
  have hnothing : reduceAll (unwrap []) = .ok [] := rfl
  simp only [reduceBlock, hregion, hafter, hnothing, List.take_append_drop]

/-- A call leaves what stands before and after the block alone. -/
theorem confined_reduceBlock (tokens : List Token) (b : Block) :
    Confined tokens b (reduceBlock tokens b).1 (reduceBlock tokens b).2 := by
  rcases Nat.lt_or_ge b.start (min b.stop tokens.length) with hlt | hle
  · obtain ⟨before, region, after, htokens, hstart, _, hstop, heq⟩ := exists_split_of_lt hlt
    obtain ⟨count, hcount⟩ := (shrunk_unwrap region).trans (shrunk_reduceAll (unwrap region))
    have hbefore : tokens.take b.start = before := by rw [htokens, ← hstart, List.take_left]
    have hafter : tokens.drop (min b.stop tokens.length) = after := by
      rw [hstop, ← hstart, htokens, List.drop_length_add_append, List.drop_left]
    have hlength := congrArg List.length htokens
    have hleft : (reduceBlock tokens b).2 =
        before ++ (leftOver (reduceAll (unwrap region)) ++ after) := by rw [heq, answerOf_left]
    have hleftLength := congrArg List.length hleft
    rw [List.length_append, List.length_append] at hlength hleftLength
    exact
      { take_isPrefix := by
          rw [hbefore, hleft]
          exact List.prefix_append _ _
        drop_isSuffix := by
          rw [hafter, hleft, ← List.append_assoc]
          exact List.suffix_append _ _
        length_le := by omega
        shrunk := ⟨count, by omega⟩
        eq_of_le := fun hle => absurd hlt (Nat.not_lt.mpr hle)
        text_eq := by
          rw [heq, ← hstart]
          exact fun text htext => exists_of_answerOf_eq_ok htext
        error_eq := by
          rw [heq]
          exact fun e he => eq_of_answerOf_eq_error he }
  · rw [reduceBlock_of_le hle]
    exact
      { take_isPrefix := List.take_prefix _ _
        drop_isSuffix := List.drop_suffix _ _
        length_le := fun _ => by
          show b.start + (tokens.length - min b.stop tokens.length) ≤ tokens.length
          omega
        shrunk := Shrunk.refl tokens
        eq_of_le := fun _ => rfl
        text_eq := nofun
        error_eq := fun e he => (Except.error.inj he).symm }

end Reduction
end Stepwise
