import Stepwise.Proofs.Expression.Step

/-!
# How many steps an expression takes

Every step but the last reduces one group, and the last reduces what is left
outside of all groups, unless the last group was the whole expression and its
result is all that is left.  So the number of steps is read off the parsed
tokens: the number of groups, and one more when an operator stands outside of
all of them or there is no group at all.
-/

namespace Stepwise

open Structure (Flat Derives)

/-! ## Operators outside of all groups -/

/-- An operator stands among the tokens outside of all groups, of which `depth`
are open before them. -/
def operatorOutside : (depth : Nat) → List Token → Bool
  | _, [] => false
  | depth, t :: rest =>
      if t.isOpening then operatorOutside (depth + 1) rest
      else if t.isClosing then operatorOutside (depth - 1) rest
      else depth == 0 && t.isOperator || operatorOutside depth rest

section Outside

variable {depth : Nat} {tokens rest : List Token} {valid : String → Prop} {part : Structure.Part}

@[simp] theorem operatorOutside_nil : operatorOutside depth [] = false := rfl

@[simp] theorem operatorOutside_number (text : String) :
    operatorOutside depth (.number text :: rest) = operatorOutside depth rest := by
  simp [operatorOutside]

@[simp] theorem operatorOutside_operator (op : Operator) :
    operatorOutside depth (.operator op :: rest) = (depth == 0 || operatorOutside depth rest) := by
  simp [operatorOutside]

@[simp] theorem operatorOutside_opening :
    operatorOutside depth (.opening :: rest) = operatorOutside (depth + 1) rest := rfl

@[simp] theorem operatorOutside_closing :
    operatorOutside depth (.closing :: rest) = operatorOutside (depth - 1) rest := rfl

theorem operatorOutside_succ_append (h : Derives valid part tokens) (depth : Nat)
    (rest : List Token) :
    operatorOutside (depth + 1) (tokens ++ rest) = operatorOutside (depth + 1) rest := by
  induction h generalizing depth rest with
  | number _ => simp
  | group _ ih => simp [ih]
  | single _ ih => exact ih depth rest
  | chain op _ _ ih₁ ih₂ => simp [ih₁, ih₂]

theorem operatorOutside_append_of_rest (h : Derives valid part tokens)
    (hrest : operatorOutside 0 rest = true) : operatorOutside 0 (tokens ++ rest) = true := by
  induction h generalizing rest with
  | number _ => simpa using hrest
  | @group inner hinner _ =>
      have := operatorOutside_succ_append hinner 0 (.closing :: rest)
      simpa [this] using hrest
  | single _ ih => exact ih hrest
  | chain op _ _ ih₁ _ =>
      rw [List.append_assoc]
      exact ih₁ (by simp)

theorem length_eq_one_iff (h : Derives valid .expression tokens) :
    tokens.length = 1 ↔
      tokens.countP Token.isOpening = 0 ∧ operatorOutside 0 tokens = false := by
  cases h with
  | single h =>
      cases h with
      | number _ => simp
      | group _ => simp
  | @chain first last op hfirst hlast =>
      have houter : operatorOutside 0 (first ++ .operator op :: last) = true :=
        operatorOutside_append_of_rest hfirst (by simp)
      have := List.length_pos_iff.mpr hfirst.ne_nil
      refine iff_of_false ?_ ?_
      · rw [List.length_append, List.length_cons]
        omega
      · rintro ⟨_, hnone⟩
        rw [houter] at hnone
        cases hnone

/-- A group and a number in its place are alike from outside. -/
theorem operatorOutside_group (h : Derives valid part tokens) (depth : Nat)
    (before after : List Token) (text : String) :
    operatorOutside depth (before ++ .opening :: (tokens ++ .closing :: after)) =
      operatorOutside depth (before ++ .number text :: after) := by
  induction before generalizing depth with
  | nil => simp [operatorOutside_succ_append h]
  | cons t before ih => simp only [List.cons_append, operatorOutside, ih]

/-! ## Groups -/

theorem countP_isOpening_of_flat (h : Flat tokens) : tokens.countP Token.isOpening = 0 := by
  refine List.countP_eq_zero.mpr ?_
  intro t ht
  simp [Token.isOpening, h t ht]

theorem countP_isOpening_group (h : Flat tokens) (before after : List Token) (text : String) :
    (before ++ .opening :: (tokens ++ .closing :: after)).countP Token.isOpening =
      (before ++ .number text :: after).countP Token.isOpening + 1 := by
  simp only [List.countP_append, List.countP_cons, countP_isOpening_of_flat h,
    Token.isOpening_opening, Token.isOpening_closing, Token.isOpening_number, if_true,
    Bool.false_eq_true, if_false]
  omega

end Outside

/-! ## The number of steps -/

/-- The number of steps that complete an expression with these tokens. -/
def stepsNeeded (tokens : List Token) : Nat :=
  let groups := tokens.countP Token.isOpening
  if groups = 0 || operatorOutside 0 tokens then groups + 1 else groups

theorem stepsNeeded_pos (tokens : List Token) : 0 < stepsNeeded tokens := by
  simp only [stepsNeeded]
  split
  · exact Nat.succ_pos _
  · next h =>
    simp only [Bool.or_eq_true, decide_eq_true_eq, not_or] at h
    exact Nat.pos_of_ne_zero h.1

/-! ## The number of tokens -/

/-- The tokens are in parentheses. -/
def isGroup (tokens : List Token) : Bool :=
  tokens.head?.any Token.isOpening && tokens.getLast?.any Token.isClosing

theorem Reads.length_eq {level : Nat} {tokens : List Token} {tree : Tree}
    (h : Reads level tokens tree) (hflat : Flat tokens) :
    tokens.length = 2 * tokens.countP Token.isOperator + 1 := by
  induction h with
  | literal text => rfl
  | group _ _ => exact Bool.noConfusion (hflat _ List.mem_cons_self)
  | single _ ih => exact ih hflat
  | node op _ _ _ ih₁ ih₂ =>
      obtain ⟨hfirst, hrest⟩ := List.forall_mem_append.mp hflat
      have h₁ := ih₁ hfirst
      have h₂ := ih₂ (List.forall_mem_cons.mp hrest).2
      simp only [List.length_append, List.length_cons, List.countP_append, List.countP_cons,
        Token.isOperator_operator, if_true]
      omega

/-- A reduction takes one off the number of steps that are needed, and is the last
just when it leaves a single token. -/
theorem Redex.stepsNeeded_eq {x : Redex} {text : String} {tree tree' : Tree}
    (hinner : Reads 3 x.inner tree) (hreduced : Reads 3 (x.reduced text) tree') :
    stepsNeeded x.tokens =
      if (x.reduced text).length = 1 then 1 else stepsNeeded (x.reduced text) + 1 := by
  cases x with
  | whole inner flat =>
      have hgroups := countP_isOpening_of_flat flat
      simp [stepsNeeded, hgroups]
  | group before inner after flat =>
      have hgroups := countP_isOpening_group flat before after text
      have hinner : Reads 3 inner tree := hinner
      have houter := operatorOutside_group hinner.derives 0 before after text
      have hone := length_eq_one_iff hreduced.derives
      rw [Redex.reduced_group] at hone ⊢
      simp only [stepsNeeded, Redex.tokens_group, hgroups, houter, hone]
      generalize operatorOutside 0 (before ++ .number text :: after) = outer
      generalize (before ++ .number text :: after).countP Token.isOpening = groups
      cases outer with
      | true => simp
      | false => cases groups <;> simp

namespace Expression.Steps

variable {e : Expression} {x : Redex} {b : Block} {text : String} {tree' : Tree}

theorem stepsNeeded_eq (h : e.Steps x b text) (hreduced : Reads 3 (x.reduced text) tree') :
    stepsNeeded e.tokens =
      if (x.reduced text).length = 1 then 1 else stepsNeeded (x.reduced text) + 1 := by
  obtain ⟨tree, hinner, _⟩ := h.reads_inner
  rw [← h.tokens_eq]
  exact Redex.stepsNeeded_eq hinner hreduced

/-- A step removes the operators of its block, as many of their operands, and
the parentheses of the block if it has any. -/
theorem length_tokens_eq (h : e.Steps x b text) :
    e.tokens.length = (x.reduced text).length +
      (2 * (b.region e.tokens).countP Token.isOperator +
        if isGroup (b.region e.tokens) then 2 else 0) := by
  obtain ⟨tree, hinner, _⟩ := h.reads_inner
  have hlength := hinner.length_eq x.flat
  rw [← h.tokens_eq, h.covers.region_eq]
  cases x with
  | whole inner flat =>
      have hbare : isGroup inner = false := by
        cases inner with
        | nil => rfl
        | cons t inner => simp [isGroup, Token.isOpening, flat t List.mem_cons_self]
      have hlength : inner.length = 2 * inner.countP Token.isOperator + 1 := hlength
      simp only [Redex.tokens_whole, Redex.reduced_whole, Redex.region, hbare,
        List.length_singleton, Bool.false_eq_true, if_false]
      omega
  | group before inner after flat =>
      have hgroup : isGroup (.opening :: (inner ++ [.closing])) = true := by
        rw [isGroup, ← List.cons_append, List.getLast?_concat]
        rfl
      have hlength : inner.length = 2 * inner.countP Token.isOperator + 1 := hlength
      simp only [Redex.tokens_group, Redex.reduced_group, Redex.region, hgroup, if_true,
        List.length_append, List.length_cons, List.countP_append, List.countP_cons,
        Token.isOperator_opening, Token.isOperator_closing, List.countP_nil, Bool.false_eq_true,
        if_false]
      omega

end Expression.Steps
end Stepwise
