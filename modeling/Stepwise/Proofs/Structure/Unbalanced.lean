import Stepwise.Proofs.Block.Tiling
import Stepwise.Proofs.Structure.Check

/-!
# When parentheses are called unbalanced

The check keeps one counter of open groups, and there are two ways for it to end badly: it
would fall below zero at a `)`, or it is not zero at the end.  Both are reported as the same
fault, the message of which tells of a `)` without a matching `(`.

Main statement: a sequence is called unbalanced just when the checks before pass, the
parentheses are even in number, and either a `)` closes a group that was never opened or a
group stays open (`fault?_eq_unbalancedParentheses_iff`).  In the second case the message need
not be true, and it comes before what is said of neighbours (`fault?_twice_opened`).
-/

namespace Stepwise.Structure

/-- A `)` closes a group that was never opened: up to there `)` are more than `(`. -/
def ClosesUnopened (tokens : List Token) : Prop :=
  ∃ front, front <+: tokens ∧ front.countP Token.isOpening < front.countP Token.isClosing

/-- More groups are opened than closed. -/
def LeavesOpen (tokens : List Token) : Prop :=
  tokens.countP Token.isClosing < tokens.countP Token.isOpening

variable {depth : Nat} {tokens : List Token}

/-! ## Balance by counting -/

theorem countP_isClosing_of_isBalanced (h : isBalanced depth tokens = true) :
    tokens.countP Token.isClosing = depth + tokens.countP Token.isOpening := by
  fun_induction isBalanced depth tokens with
  | case1 depth => exact (beq_iff_eq.mp h).symm
  | case2 depth t rest hopening ih =>
      simp only [List.countP_cons, hopening, Token.isClosing_eq_false_of_isOpening hopening,
        Bool.false_eq_true, if_true, if_false, ih h]
      omega
  | case3 depth t rest hopening hclosing ih =>
      obtain ⟨hdepth, hrest⟩ := Bool.and_eq_true_iff.mp h
      have hdepth := bne_iff_ne.mp hdepth
      simp only [List.countP_cons, hopening, hclosing, Bool.false_eq_true, if_true, if_false,
        ih hrest]
      omega
  | case4 depth t rest hopening hclosing ih =>
      simp only [List.countP_cons, hopening, hclosing, Bool.false_eq_true, if_false, Nat.add_zero,
        ih h]

/-- A count that never falls below zero and ends there is all that balance asks for. -/
theorem isBalanced_of_neverBelow (h : NeverBelow depth tokens)
    (hcount : tokens.countP Token.isClosing = depth + tokens.countP Token.isOpening) :
    isBalanced depth tokens = true := by
  fun_induction isBalanced depth tokens with
  | case1 depth =>
      rw [List.countP_nil, List.countP_nil] at hcount
      exact beq_iff_eq.mpr hcount.symm
  | case2 depth t rest hopening ih =>
      have htail := h.tail
      rw [if_pos hopening] at htail
      refine ih htail ?_
      simp only [List.countP_cons, hopening, Token.isClosing_eq_false_of_isOpening hopening,
        Bool.false_eq_true, if_true, if_false] at hcount
      omega
  | case3 depth t rest hopening hclosing ih =>
      have htail := h.tail
      have hpos := h.pos hclosing
      rw [if_neg hopening, if_pos hclosing] at htail
      refine Bool.and_eq_true_iff.mpr ⟨bne_iff_ne.mpr (Nat.ne_of_gt hpos), ih htail ?_⟩
      simp only [List.countP_cons, hopening, hclosing, Bool.false_eq_true, if_true,
        if_false] at hcount
      omega
  | case4 depth t rest hopening hclosing ih =>
      have htail := h.tail
      rw [if_neg hopening, if_neg hclosing] at htail
      refine ih htail ?_
      simpa only [List.countP_cons, hopening, hclosing, Bool.false_eq_true, if_false,
        Nat.add_zero] using hcount

theorem isBalanced_iff :
    isBalanced depth tokens = true ↔ NeverBelow depth tokens ∧
      tokens.countP Token.isClosing = depth + tokens.countP Token.isOpening := by
  constructor
  · intro h
    exact ⟨neverBelow_of_isBalanced h, countP_isClosing_of_isBalanced h⟩
  · rintro ⟨h, hcount⟩
    exact isBalanced_of_neverBelow h hcount

theorem closesUnopened_iff : ClosesUnopened tokens ↔ ¬NeverBelow 0 tokens := by
  constructor
  · rintro ⟨front, hfront, hlt⟩ h
    have hle := h front.length
    rw [← List.prefix_iff_eq_take.mp hfront] at hle
    omega
  · intro h
    obtain ⟨count, hcount⟩ := Classical.not_forall.mp h
    exact ⟨tokens.take count, List.take_prefix count tokens, by omega⟩

/-- The two ways in which parentheses fail to be balanced. -/
theorem isBalanced_eq_false_iff :
    isBalanced 0 tokens = false ↔ ClosesUnopened tokens ∨ LeavesOpen tokens := by
  rw [← Bool.not_eq_true, isBalanced_iff, closesUnopened_iff, LeavesOpen, Nat.zero_add]
  constructor
  · intro h
    by_cases hbelow : NeverBelow 0 tokens
    · have hle := hbelow tokens.length
      rw [List.take_length, Nat.zero_add] at hle
      exact .inr (Nat.lt_of_le_of_ne hle fun hcount => h ⟨hbelow, hcount⟩)
    · exact .inl hbelow
  · rintro (hbelow | hopen) ⟨h, hcount⟩
    · exact hbelow h
    · exact Nat.ne_of_lt hopen hcount

/-! ## The fault -/

theorem parenthesisFault?_eq_unbalancedParentheses_iff :
    parenthesisFault? tokens = some .unbalancedParentheses ↔
      tokens.countP Token.isParenthesis % 2 = 0 ∧ isBalanced 0 tokens = false := by
  unfold parenthesisFault?
  split
  · next hodd => simp [hodd]
  · next heven =>
    split
    · next hbalanced => simp [hbalanced]
    · next hbalanced =>
      simp only [hbalanced, and_true, true_iff]
      omega

/-- No check reports unbalanced parentheses but the one of the parentheses, and it does so only
if the checks before it pass. -/
theorem fault?_eq_unbalancedParentheses_iff_parenthesisFault? :
    fault? tokens = some .unbalancedParentheses ↔
      (emptyFault? tokens = none ∧ numberFault? tokens = none ∧ edgeFault? tokens = none ∧
        operatorFault? tokens = none) ∧
      parenthesisFault? tokens = some .unbalancedParentheses := by
  constructor
  · intro h
    simp only [fault?, Option.or_eq_some_iff] at h
    rcases h with h | ⟨hempty, h | ⟨hnumber, h | ⟨hedge, h | ⟨hoperator, h | ⟨_, h⟩⟩⟩⟩⟩
    · cases eq_of_emptyFault? h
    · obtain ⟨_, htext⟩ := exists_of_numberFault? h
      cases htext
    · rcases eq_of_edgeFault? h with heq | heq <;> cases heq
    · cases eq_of_operatorFault? h
    · exact ⟨⟨hempty, hnumber, hedge, hoperator⟩, h⟩
    · obtain ⟨_, _, hpair⟩ := List.exists_of_findSome?_eq_some h
      rcases eq_of_pairFault? hpair with heq | heq | ⟨_, _, heq⟩ <;> cases heq
  · rintro ⟨⟨hempty, hnumber, hedge, hoperator⟩, h⟩
    rw [fault?, hempty, hnumber, hedge, hoperator, h]
    rfl

/-- A sequence is called unbalanced when nothing is wrong with single tokens and operators, its
parentheses are even in number, and a `)` closes a group that was never opened or a group stays
open. -/
theorem fault?_eq_unbalancedParentheses_iff (tokens : List Token) :
    fault? tokens = some .unbalancedParentheses ↔
      (tokens ≠ [] ∧ (∀ t ∈ tokens, t.isNumber = true → IsLiteral t.text) ∧
        (tokens.head?.any Token.isOperator = false ∧
          tokens.getLast?.any Token.isOperator = false) ∧
        ∀ p ∈ neighbours tokens, (p.1.isOperator && p.2.isOperator) = false) ∧
      tokens.countP Token.isParenthesis % 2 = 0 ∧
      (ClosesUnopened tokens ∨ LeavesOpen tokens) := by
  rw [fault?_eq_unbalancedParentheses_iff_parenthesisFault?, emptyFault?_eq_none_iff,
    numberFault?_eq_none_iff, edgeFault?_eq_none_iff, operatorFault?_eq_none_iff,
    parenthesisFault?_eq_unbalancedParentheses_iff, isBalanced_eq_false_iff]

/-- Two groups are opened and no `)` follows, and still the fault is a `)` without a matching
`(`, not the operator that is missing. -/
theorem fault?_twice_opened :
    let tokens : List Token := [.opening, .opening, .number "1", .number "2"]
    (∀ t ∈ tokens, t.Proper) ∧ fault? tokens = some .unbalancedParentheses ∧
      InputError.message .unbalancedParentheses =
        "Closing parenthesis ')' without a matching '('." ∧
      ¬ClosesUnopened tokens := by
  intro tokens
  have hbelow : NeverBelow 0 tokens := by decide
  exact ⟨by decide, by decide, rfl, fun h => closesUnopened_iff.mp h hbelow⟩

end Stepwise.Structure
