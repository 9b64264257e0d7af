import Stepwise.Proofs.Decimal.Literal
import Stepwise.Proofs.Structure.Grammar

/-!
# The check of the structure is the grammar

The check looks at single tokens, at neighbours and at a counter.  Between two
tokens that have a place in expressions its conditions on neighbours come down
to one, `fits_iff`: an operand begins on the right just when none ends on the
left.  Chained along a sequence this is `Alternates`, and with the counter it is
the grammar.
-/

namespace Stepwise.Structure

/-- The text of a number that may be written. -/
def IsLiteral (text : String) : Prop := Decimal.Literal text.toList

/-- The check has nothing against these two tokens next to each other. -/
def Fits (pair : Token × Token) : Prop :=
  (pair.1.isOperator && pair.2.isOperator) = false ∧ pairFault? pair = none

variable {tokens rest : List Token} {t u : Token} {due : Bool} {depth : Nat}
  {valid : String → Prop}

/-! ## Each condition of the check -/

theorem emptyFault?_eq_none_iff : emptyFault? tokens = none ↔ tokens ≠ [] := by
  cases tokens <;> simp [emptyFault?]

theorem numberFault?_eq_none_iff :
    numberFault? tokens = none ↔ ∀ t ∈ tokens, t.isNumber = true → IsLiteral t.text := by
  simp [numberFault?, IsLiteral, Decimal.isLiteral_iff]

theorem edgeFault?_eq_none_iff :
    edgeFault? tokens = none ↔
      tokens.head?.any Token.isOperator = false ∧ tokens.getLast?.any Token.isOperator = false := by
  simp only [edgeFault?]
  split
  · next h => simp [h]
  · split
    · next h => simp [h]
    · next hf hl => simp [Bool.eq_false_iff.mpr hf, Bool.eq_false_iff.mpr hl]

theorem operatorFault?_eq_none_iff :
    operatorFault? tokens = none ↔
      ∀ p ∈ neighbours tokens, (p.1.isOperator && p.2.isOperator) = false := by
  simp [operatorFault?]

theorem parenthesisFault?_eq_none_iff :
    parenthesisFault? tokens = none ↔
      tokens.countP Token.isParenthesis % 2 = 0 ∧ isBalanced 0 tokens = true := by
  simp only [parenthesisFault?]
  split
  · next h => simp [h]
  · next h =>
    split
    · next hb => simp [hb]; omega
    · next hb => simp [hb]

/-! ### What each of them reports -/

section Reports

variable {fault : InputError} {pair : Token × Token}

theorem eq_of_emptyFault? (h : emptyFault? tokens = some fault) : fault = .emptyExpression := by
  unfold emptyFault? at h
  split at h
  · exact (Option.some_inj.mp h).symm
  · cases h

theorem exists_of_numberFault? (h : numberFault? tokens = some fault) :
    ∃ text, fault = .notANumber text := by
  obtain ⟨t, _, rfl⟩ := Option.map_eq_some_iff.mp h
  exact ⟨t.text, rfl⟩

theorem eq_of_edgeFault? (h : edgeFault? tokens = some fault) :
    fault = .operatorFirst ∨ fault = .operatorLast := by
  unfold edgeFault? at h
  split at h
  · exact .inl (Option.some_inj.mp h).symm
  · split at h
    · exact .inr (Option.some_inj.mp h).symm
    · cases h

theorem eq_of_operatorFault? (h : operatorFault? tokens = some fault) :
    fault = .misplacedOperator := by
  unfold operatorFault? at h
  split at h
  · exact (Option.some_inj.mp h).symm
  · cases h

theorem eq_of_parenthesisFault? (h : parenthesisFault? tokens = some fault) :
    fault = .oddParentheses ∨ fault = .unbalancedParentheses := by
  unfold parenthesisFault? at h
  split at h
  · exact .inl (Option.some_inj.mp h).symm
  · split at h
    · cases h
    · exact .inr (Option.some_inj.mp h).symm

theorem eq_of_pairFault? (h : pairFault? pair = some fault) :
    fault = .emptyParentheses ∨ fault = .misplacedOperator ∨
      ∃ left right, fault = .missingOperator left right := by
  obtain ⟨left, right⟩ := pair
  simp only [pairFault?] at h
  split at h
  · exact .inl (Option.some_inj.mp h).symm
  · split at h
    · exact .inr (.inl (Option.some_inj.mp h).symm)
    · split at h
      · exact .inr (.inr ⟨_, _, (Option.some_inj.mp h).symm⟩)
      · cases h

end Reports

/-- The check passes just when all of its conditions hold; those on neighbours
are taken together. -/
theorem fault?_eq_none_iff :
    fault? tokens = none ↔
      tokens ≠ [] ∧ (∀ t ∈ tokens, t.isNumber = true → IsLiteral t.text) ∧
      (tokens.head?.any Token.isOperator = false ∧
        tokens.getLast?.any Token.isOperator = false) ∧
      (tokens.countP Token.isParenthesis % 2 = 0 ∧ isBalanced 0 tokens = true) ∧
      ∀ p ∈ neighbours tokens, Fits p := by
  have hfits : (∀ p ∈ neighbours tokens, Fits p) ↔
      (∀ p ∈ neighbours tokens, (p.1.isOperator && p.2.isOperator) = false) ∧
        ∀ p ∈ neighbours tokens, pairFault? p = none := by
    constructor
    · intro h
      exact ⟨fun p hp => (h p hp).1, fun p hp => (h p hp).2⟩
    · intro h p hp
      exact ⟨h.1 p hp, h.2 p hp⟩
  simp only [fault?, Option.or_eq_none_iff, emptyFault?_eq_none_iff, numberFault?_eq_none_iff,
    edgeFault?_eq_none_iff, operatorFault?_eq_none_iff, parenthesisFault?_eq_none_iff,
    List.findSome?_eq_none_iff, hfits]
  constructor
  · rintro ⟨hne, hlit, hedge, hop, hpar, hpair⟩
    exact ⟨hne, hlit, hedge, hpar, hop, hpair⟩
  · rintro ⟨hne, hlit, hedge, hpar, hop, hpair⟩
    exact ⟨hne, hlit, hedge, hop, hpar, hpair⟩

/-! ## Neighbours -/

/-- Two tokens fit when an operand begins on the right just when none ends on the
left. -/
theorem fits_iff (ht : t.Proper) (hu : u.Proper) :
    Fits (t, u) ↔ beginsOperand u = !endsOperand t := by
  cases ht <;> cases hu <;> simp [Fits, pairFault?, beginsOperand, endsOperand]

theorem Alternates.due_eq (h : Alternates valid due (t :: rest)) : due = beginsOperand t := by
  cases h with
  | number _ _ => rfl
  | opening _ => rfl
  | operator _ _ => rfl
  | closing _ => rfl

theorem Alternates.tail (h : Alternates valid due (t :: rest)) :
    Alternates valid (!endsOperand t) rest := by
  cases h with
  | number _ h => exact h
  | opening h => exact h
  | operator _ h => exact h
  | closing h => exact h

theorem Alternates.fits : ∀ {tokens : List Token} {due : Bool}, Alternates valid due tokens →
    ∀ p ∈ neighbours tokens, Fits p
  | [], _, _ => by
      intro p hp
      exact absurd hp List.not_mem_nil
  | [_], _, _ => by
      intro p hp
      exact absurd hp List.not_mem_nil
  | t :: u :: _, _, h => by
      obtain ⟨ht, hrest⟩ := List.forall_mem_cons.mp h.proper
      have hfits : Fits (t, u) := by
        rw [fits_iff ht (hrest u List.mem_cons_self)]
        exact h.tail.due_eq.symm
      exact List.forall_mem_cons.mpr ⟨hfits, h.tail.fits⟩

theorem Alternates.getLast?_isOperator (h : Alternates valid due tokens) :
    tokens.getLast?.any Token.isOperator = false := by
  induction h with
  | done => rfl
  | @number _ rest _ _ ih | @opening rest _ ih | @closing rest _ ih =>
      cases rest with
      | nil => rfl
      | cons u rest => simpa using ih
  | @operator rest op h ih =>
      cases rest with
      | nil => cases h
      | cons u rest => simpa using ih

/-- A sequence in which neighbours fit and that ends as it should alternates. -/
theorem alternates_of_fits : ∀ {rest : List Token} {t : Token} {depth : Nat},
    (∀ u ∈ t :: rest, u.Proper) → (∀ u ∈ t :: rest, u.isNumber = true → IsLiteral u.text) →
    (t :: rest).getLast?.any Token.isOperator = false → isBalanced depth (t :: rest) = true →
    (∀ p ∈ neighbours (t :: rest), Fits p) → Alternates IsLiteral (beginsOperand t) (t :: rest)
  | [], t, _, hp, hlit, hlast, hb, _ => by
      cases hp t List.mem_cons_self with
      | number text => exact .number (hlit _ List.mem_cons_self rfl) .done
      | operator op => exact Bool.noConfusion hlast
      | opening => exact Bool.noConfusion hb
      | closing => exact .closing .done
  | u :: rest, t, depth, hp, hlit, hlast, hb, hfit => by
      obtain ⟨ht, hp⟩ := List.forall_mem_cons.mp hp
      obtain ⟨htext, hlit⟩ := List.forall_mem_cons.mp hlit
      obtain ⟨hpair, hfit⟩ := List.forall_mem_cons.mp hfit
      rw [List.getLast?_cons_cons] at hlast
      have htail : ∀ {depth : Nat}, isBalanced depth (u :: rest) = true →
          Alternates IsLiteral (!endsOperand t) (u :: rest) := by
        intro depth hb
        rw [← (fits_iff ht (hp u List.mem_cons_self)).mp hpair]
        exact alternates_of_fits hp hlit hlast hb hfit
      cases ht with
      | number text => exact .number (htext rfl) (htail hb)
      | operator op => exact .operator op (htail hb)
      | opening => exact .opening (htail hb)
      | closing =>
          rw [isBalanced_closing, Bool.and_eq_true] at hb
          exact .closing (htail hb.2)

/-! ## The number of parentheses -/

/-- Balanced parentheses come in pairs, but for those that close groups opened
before. -/
theorem even_countP_isParenthesis (hp : ∀ t ∈ tokens, t.Proper) :
    ∀ {depth : Nat}, isBalanced depth tokens = true →
      (tokens.countP Token.isParenthesis + depth) % 2 = 0 := by
  induction tokens with
  | nil =>
      intro depth h
      rw [beq_iff_eq.mp h]
      rfl
  | cons t rest ih =>
      intro depth h
      obtain ⟨ht, hrest⟩ := List.forall_mem_cons.mp hp
      have ih := @ih hrest
      cases ht with
      | number text => simpa using ih h
      | operator op => simpa using ih h
      | opening =>
          have := ih h
          simp only [List.countP_cons, Token.isParenthesis_opening, if_true]
          omega
      | closing =>
          rw [isBalanced_closing, Bool.and_eq_true, bne_iff_ne] at h
          have := ih h.2
          simp only [List.countP_cons, Token.isParenthesis_closing, if_true]
          omega

/-! ## The grammar -/

theorem derives_of_fault?_eq_none (hp : ∀ t ∈ tokens, t.Proper) (h : fault? tokens = none) :
    Derives IsLiteral .expression tokens := by
  obtain ⟨hne, hlit, ⟨hfirst, hlast⟩, ⟨_, hb⟩, hfit⟩ := fault?_eq_none_iff.mp h
  cases tokens with
  | nil => exact absurd rfl hne
  | cons t rest =>
      have halt := alternates_of_fits hp hlit hlast hb hfit
      have hdue : beginsOperand t = true := by
        cases hp t List.mem_cons_self with
        | number _ => rfl
        | operator _ => exact Bool.noConfusion hfirst
        | opening => rfl
        | closing => exact Bool.noConfusion hb
      exact derives_iff.mpr ⟨hdue ▸ halt, hb⟩

theorem fault?_eq_none_of_derives (h : Derives IsLiteral .expression tokens) :
    fault? tokens = none := by
  have halt := h.alternates
  refine fault?_eq_none_iff.mpr ⟨?_, halt.valid_text, ⟨?_, halt.getLast?_isOperator⟩,
    ⟨even_countP_isParenthesis halt.proper h.isBalanced, h.isBalanced⟩, halt.fits⟩
  · rintro rfl
    cases halt
  · cases halt with
    | number _ _ => rfl
    | opening _ => rfl

/-- The check accepts exactly the expressions `E ::= A (op A)*`,
`A ::= number | '(' E ')'` whose numbers are literals. -/
theorem fault?_eq_none_iff_derives (hp : ∀ t ∈ tokens, t.Proper) :
    fault? tokens = none ↔ Derives IsLiteral .expression tokens :=
  ⟨derives_of_fault?_eq_none hp, fault?_eq_none_of_derives⟩

theorem derives_power_of_group :
    let tokens : List Token := [.opening, .number "2", .operator .subtract, .number "-3.", .closing,
      .operator .power, .number "0"]
    (∀ t ∈ tokens, t.Proper) ∧ fault? tokens = none ∧ Derives IsLiteral .expression tokens := by
  intro tokens
  have hp : ∀ t ∈ tokens, t.Proper := by decide
  have hfault : fault? tokens = none := by decide
  exact ⟨hp, hfault, (fault?_eq_none_iff_derives hp).mp hfault⟩

end Stepwise.Structure
