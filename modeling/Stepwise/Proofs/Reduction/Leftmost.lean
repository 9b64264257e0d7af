import Stepwise.Proofs.Binary64.Text
import Stepwise.Proofs.Decimal.Literal
import Stepwise.Reduction

/-!
# One operator at a time

A region is reduced tier by tier, in one pass for each.  It could as well be reduced by
looking, before every single reduction, for the leftmost operator of the tightest tier
that is present.  Both come to the same for any tokens, also where operands are missing
or are operators and parentheses themselves (`passes_of_leftmostOf?`): a pass leaves no
operator of its tier, and what is written for a result is never the symbol of an
operator, so that no reduction brings back a tier that has had its pass.
-/

namespace Stepwise

/-! ## Results are no operators -/

theorem Operator.ofSymbol?_toText (x : Binary64) : Operator.ofSymbol? x.toText = none := by
  cases hx : x.isFinite with
  | true =>
      refine Option.eq_none_iff_forall_ne_some.mpr ?_
      intro op hop
      have hliteral : Decimal.Literal x.toText.toList := by
        rw [Binary64.toText, String.toList_ofList]
        exact Binary64.literal_toChars hx
      rw [← Operator.symbol_of_ofSymbol? hop, ← Decimal.isLiteral_iff] at hliteral
      revert hliteral
      cases op <;> decide
  | false =>
      rcases Binary64.toText_of_not_isFinite hx with h | h | h <;> rw [h] <;> decide

namespace Reduction

variable {tier : Tier} {tiers : List Tier} {op : Operator} {t left right : Token}
  {tokens front rest done before after : List Token} {index : Nat}

/-- The left operand after a reduction. -/
def resultToken (op : Operator) (left right : Token) : Token :=
  { left with text := op.applyText left.text right.text }

@[simp] theorem operator?_resultToken : (resultToken op left right).operator? = none := by
  simp only [Token.operator?, resultToken, Operator.applyText, Operator.ofSymbol?_toText,
    ite_self]

theorem operatorOf?_resultToken : operatorOf? tier (resultToken op left right) = none := by
  rw [operatorOf?, operator?_resultToken]
  rfl

theorem operatorOf?_eq_some_iff :
    operatorOf? tier t = some op ↔ t.operator? = some op ∧ op.tier = tier := by
  simp [operatorOf?]

/-! ## The leftmost operator of the tightest tier -/

/-- The leftmost operator of a tier, with its index. -/
def leftmost? (tier : Tier) : List Token → Option (Nat × Operator)
  | [] => none
  | t :: rest =>
      match operatorOf? tier t with
      | some op => some (0, op)
      | none => (leftmost? tier rest).map fun (index, op) => (index + 1, op)

/-- The leftmost operator of the first of the tiers that is present. -/
def leftmostOf? (tiers : List Tier) (tokens : List Token) : Option (Nat × Operator) :=
  tiers.findSome? fun tier => leftmost? tier tokens

/-- None of the tokens stands for an operator of the tier. -/
def Without (tier : Tier) (tokens : List Token) : Prop := ∀ t ∈ tokens, operatorOf? tier t = none

theorem without_of_leftmost? (h : leftmost? tier tokens = none) : Without tier tokens := by
  induction tokens with
  | nil => exact fun _ hmem => absurd hmem List.not_mem_nil
  | cons t rest ih =>
      rw [leftmost?] at h
      split at h
      · cases h
      · next ht => exact List.forall_mem_cons.mpr ⟨ht, ih (Option.map_eq_none_iff.mp h)⟩

theorem exists_of_leftmost? (h : leftmost? tier tokens = some (index, op)) :
    ∃ front t rest, tokens = front ++ t :: rest ∧ front.length = index ∧ Without tier front ∧
      operatorOf? tier t = some op := by
  induction tokens generalizing index with
  | nil => cases h
  | cons t rest ih =>
      rw [leftmost?] at h
      split at h
      · next ht =>
        cases h
        exact ⟨[], t, rest, rfl, rfl, fun _ hmem => absurd hmem List.not_mem_nil, ht⟩
      · next ht =>
        obtain ⟨⟨index, op⟩, hrest, hpair⟩ := Option.map_eq_some_iff.mp h
        cases hpair
        obtain ⟨front, u, after, rfl, rfl, hfront, hu⟩ := ih hrest
        exact ⟨t :: front, u, after, rfl, rfl, List.forall_mem_cons.mpr ⟨ht, hfront⟩, hu⟩

/-! ## A pass, from its first operator on -/

theorem reduceTier_append_of_without (h : Without tier front) :
    reduceTier tier done (front ++ rest) = reduceTier tier (front.reverse ++ done) rest := by
  induction front generalizing done with
  | nil => rfl
  | cons t front ih =>
      obtain ⟨ht, hfront⟩ := List.forall_mem_cons.mp h
      rw [List.cons_append, reduceTier, ht]
      simp only [ih hfront, List.reverse_cons, List.append_assoc, List.singleton_append]

theorem reduceTier_of_without (h : Without tier tokens) :
    reduceTier tier [] tokens = .ok tokens := by
  have hpass := @reduceTier_append_of_without tier tokens [] [] h
  simpa [reduceTier] using hpass

/-- An operator with no token on one side stops the pass before it has changed
anything. -/
theorem reduceTier_eq_error (hfront : Without tier front) (ht : operatorOf? tier t = some op)
    (hedge : front = [] ∨ rest = []) :
    reduceTier tier [] (front ++ t :: rest) = .error (front ++ t :: rest) := by
  rw [reduceTier_append_of_without hfront, List.append_nil, reduceTier, ht]
  rcases hedge with rfl | rfl
  · rfl
  · cases hdone : front.reverse <;> simp [← hdone]

/-- An operator with operands can be reduced by itself: the pass goes on as it would over
the tokens with the result in their place. -/
theorem reduceTier_eq_reduceTier (hbefore : Without tier (before ++ [left]))
    (ht : operatorOf? tier t = some op) :
    reduceTier tier [] (before ++ [left] ++ t :: right :: after) =
      reduceTier tier [] (before ++ resultToken op left right :: after) := by
  obtain ⟨hfront, _⟩ := List.forall_mem_append.mp hbefore
  rw [reduceTier_append_of_without hbefore, reduceTier_append_of_without hfront,
    List.reverse_append, List.append_nil, List.append_nil]
  calc reduceTier tier (left :: before.reverse) (t :: right :: after)
    _ = reduceTier tier (resultToken op left right :: before.reverse) after := by
        rw [reduceTier, ht]
        rfl
    _ = reduceTier tier before.reverse (resultToken op left right :: after) := by
        rw [reduceTier.eq_2 tier before.reverse, operatorOf?_resultToken]

/-! ## All passes -/

/-- The passes over the operators of several tiers. -/
def passes (tiers : List Tier) (tokens : List Token) : Except (List Token) (List Token) :=
  tiers.foldlM (fun tokens tier => reduceTier tier [] tokens) tokens

theorem reduceAll_eq_passes : reduceAll tokens = passes Tier.all tokens := rfl

theorem passes_cons : passes (tier :: tiers) tokens =
    (reduceTier tier [] tokens).bind (passes tiers) := by
  rw [passes, List.foldlM_cons]
  rfl

theorem passes_cons_of_without (h : Without tier tokens) :
    passes (tier :: tiers) tokens = passes tiers tokens := by
  rw [passes_cons, reduceTier_of_without h]
  rfl

theorem passes_of_leftmostOf?_eq_none (h : leftmostOf? tiers tokens = none) :
    passes tiers tokens = .ok tokens := by
  induction tiers with
  | nil => rfl
  | cons tier tiers ih =>
      rw [leftmostOf?, List.findSome?_cons] at h
      split at h
      · cases h
      · next hnone => rw [passes_cons_of_without (without_of_leftmost? hnone), ih h]

/-- Where operands stand on both sides, the passes can begin with the reduction of the
leftmost operator of the tightest tier.  Otherwise they stop there. -/
theorem passes_of_leftmostOf? (h : leftmostOf? tiers tokens = some (index, op)) :
    ∃ front t rest, tokens = front ++ t :: rest ∧ front.length = index ∧ t.operator? = some op ∧
      (front = [] ∨ rest = [] → passes tiers tokens = .error tokens) ∧
      ∀ before left right after, front = before ++ [left] → rest = right :: after →
        passes tiers tokens = passes tiers (before ++ resultToken op left right :: after) := by
  induction tiers with
  | nil => cases h
  | cons tier tiers ih =>
      rw [leftmostOf?, List.findSome?_cons] at h
      split at h
      · next hfound =>
        -- the first tier is present
        cases h
        obtain ⟨front, t, rest, rfl, hindex, hfront, ht⟩ := exists_of_leftmost? hfound
        refine ⟨front, t, rest, rfl, hindex, (operatorOf?_eq_some_iff.mp ht).1, ?_, ?_⟩
        · intro hedge
          rw [passes_cons, reduceTier_eq_error hfront ht hedge]
          rfl
        · rintro before left right after rfl rfl
          rw [passes_cons, passes_cons, reduceTier_eq_reduceTier hfront ht]
      · next hnone =>
        -- the first tier is absent, and stays so
        have hwithout := without_of_leftmost? hnone
        obtain ⟨front, t, rest, rfl, hindex, ht, hedge, hstep⟩ := ih h
        refine ⟨front, t, rest, rfl, hindex, ht, ?_, ?_⟩
        · intro h
          rw [passes_cons_of_without hwithout, hedge h]
        · rintro before left right after rfl rfl
          have hresult : Without tier (before ++ resultToken op left right :: after) := by
            simp only [Without, List.forall_mem_append, List.forall_mem_cons] at hwithout ⊢
            exact ⟨hwithout.1.1, operatorOf?_resultToken, hwithout.2.2.2⟩
          rw [passes_cons_of_without hwithout, passes_cons_of_without hresult,
            hstep before left right after rfl rfl]

end Reduction
end Stepwise
