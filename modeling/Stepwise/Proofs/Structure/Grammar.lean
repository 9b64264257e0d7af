import Stepwise.Structure

/-!
# The grammar of expressions

`Derives` is the grammar `E ::= A (op A)*`, `A ::= number | '(' E ')'` on token
lists; which texts of number tokens count is left to a predicate, since the
results of reductions need not be literals.  `Alternates` keeps of it only what
a finite automaton sees, that operands and operators take turns, and forgets the
nesting.

The main statement is `derives_iff`: a sequence is in the grammar when it
alternates and its parentheses balance.  From right to left it is the induction
over the nesting that the check itself never makes.
-/

namespace Stepwise

/-- The tokens that have a place in expressions: kind and text agree, and the
text of a number is free. -/
inductive Token.Proper : Token → Prop
  | number (text : String) : Token.Proper (.number text)
  | operator (op : Operator) : Token.Proper (.operator op)
  | opening : Token.Proper .opening
  | closing : Token.Proper .closing

namespace Token

variable {t : Token}

theorem eq_operator_of_operator? {op : Operator} (h : t.operator? = some op) :
    t = .operator op := by
  obtain ⟨kind, text⟩ := t
  simp only [operator?, isOperator, beq_iff_eq] at h
  split at h
  · next hkind =>
    subst hkind
    rw [← Operator.symbol_of_ofSymbol? h]
    rfl
  · cases h

theorem operator_injective {op op' : Operator} (h : operator op = operator op') : op = op' := by
  have hop := congrArg operator? h
  simpa using hop

theorem eq_opening_of_isOpening (h : t.isOpening = true) : t = .opening := by
  obtain ⟨kind, text⟩ := t
  simp only [isOpening, isParenthesis, Bool.and_eq_true, beq_iff_eq] at h
  obtain ⟨rfl, rfl⟩ := h
  rfl

theorem eq_closing_of_isClosing (h : t.isClosing = true) : t = .closing := by
  obtain ⟨kind, text⟩ := t
  simp only [isClosing, isParenthesis, Bool.and_eq_true, beq_iff_eq] at h
  obtain ⟨rfl, rfl⟩ := h
  rfl

/-- A token has its place in expressions when what it is told to be by its kind,
its text bears out. -/
theorem proper_iff :
    t.Proper ↔ t.isNumber = true ∨ t.operator?.isSome = true ∨
      t.isOpening = true ∨ t.isClosing = true := by
  constructor
  · intro h
    cases h with
    | number text => exact .inl rfl
    | operator op => exact .inr (.inl (by simp))
    | opening => exact .inr (.inr (.inl rfl))
    | closing => exact .inr (.inr (.inr rfl))
  · rintro (h | h | h | h)
    · obtain ⟨kind, text⟩ := t
      obtain rfl : kind = .number := beq_iff_eq.mp h
      exact .number text
    · obtain ⟨op, hop⟩ := Option.isSome_iff_exists.mp h
      rw [eq_operator_of_operator? hop]
      exact .operator op
    · rw [eq_opening_of_isOpening h]
      exact .opening
    · rw [eq_closing_of_isClosing h]
      exact .closing

theorem Proper.kind_ne_error (h : t.Proper) : t.kind ≠ .error := by
  cases h <;> nofun

instance : DecidablePred Token.Proper := fun _ => decidable_of_iff _ proper_iff.symm

end Token

namespace Structure

/-- What a part of an expression can be. -/
inductive Part where
  /-- `A`: a number or a group. -/
  | operand
  /-- `E`: operands with operators between them. -/
  | expression

/-- The grammar of expressions, in which a number token may hold the texts that
`valid` admits. -/
inductive Derives (valid : String → Prop) : Part → List Token → Prop
  | number {text : String} : valid text → Derives valid .operand [.number text]
  | group {inner : List Token} : Derives valid .expression inner →
      Derives valid .operand (.opening :: (inner ++ [.closing]))
  | single {tokens : List Token} : Derives valid .operand tokens →
      Derives valid .expression tokens
  | chain {first last : List Token} (op : Operator) : Derives valid .expression first →
      Derives valid .operand last → Derives valid .expression (first ++ .operator op :: last)

/-- Operands and operators take turns, parentheses aside: `Alternates valid due`
holds of the sequences that end with an operand and begin with one just when
`due` says so.  A `(` may stand where an operand is due, a `)` where none is. -/
inductive Alternates (valid : String → Prop) : (due : Bool) → List Token → Prop
  | done : Alternates valid false []
  | number {text : String} {rest : List Token} : valid text → Alternates valid false rest →
      Alternates valid true (.number text :: rest)
  | opening {rest : List Token} : Alternates valid true rest →
      Alternates valid true (.opening :: rest)
  | operator {rest : List Token} (op : Operator) : Alternates valid true rest →
      Alternates valid false (.operator op :: rest)
  | closing {rest : List Token} : Alternates valid false rest →
      Alternates valid false (.closing :: rest)

variable {valid : String → Prop} {part : Part} {tokens rest : List Token} {due : Bool}
  {depth : Nat}

/-! ## Balance, token by token -/

@[simp] theorem isBalanced_nil : isBalanced depth [] = (depth == 0) := rfl

@[simp] theorem isBalanced_number (text : String) :
    isBalanced depth (.number text :: rest) = isBalanced depth rest := rfl

@[simp] theorem isBalanced_operator (op : Operator) :
    isBalanced depth (.operator op :: rest) = isBalanced depth rest := rfl

@[simp] theorem isBalanced_opening :
    isBalanced depth (.opening :: rest) = isBalanced (depth + 1) rest := rfl

@[simp] theorem isBalanced_closing :
    isBalanced depth (.closing :: rest) = (depth != 0 && isBalanced (depth - 1) rest) := rfl

/-! ## Sequences without parentheses -/

/-- No token is a parenthesis. -/
def Flat (tokens : List Token) : Prop := ∀ t ∈ tokens, t.isParenthesis = false

theorem isBalanced_of_not_isParenthesis {t : Token} (h : t.isParenthesis = false) :
    isBalanced depth (t :: rest) = isBalanced depth rest := by
  simp [isBalanced, Token.isOpening, Token.isClosing, h]

theorem Flat.isBalanced_append (h : Flat tokens) (depth : Nat) (rest : List Token) :
    isBalanced depth (tokens ++ rest) = isBalanced depth rest := by
  induction tokens with
  | nil => rfl
  | cons t tokens ih =>
      obtain ⟨ht, hrest⟩ := List.forall_mem_cons.mp h
      rw [List.cons_append, isBalanced_of_not_isParenthesis ht]
      exact ih hrest

theorem Flat.isBalanced_append_opening (h : Flat tokens) (before : List Token) :
    isBalanced depth (before ++ .opening :: tokens) = false := by
  induction before generalizing depth with
  | nil =>
      simpa using h.isBalanced_append (depth + 1) []
  | cons t before ih =>
      rw [List.cons_append, isBalanced]
      split
      · exact ih
      · split
        · rw [ih, Bool.and_false]
        · exact ih

theorem Flat.isBalanced_append_closing (h : Flat tokens) :
    isBalanced 0 (tokens ++ .closing :: rest) = false := by
  rw [h.isBalanced_append]
  rfl

/-! ## Phrases balance and alternate -/

theorem Derives.isBalanced_append (h : Derives valid part tokens) (depth : Nat)
    (rest : List Token) :
    isBalanced depth (tokens ++ rest) = isBalanced depth rest := by
  induction h generalizing depth rest with
  | number _ => rfl
  | group _ ih => simp [ih]
  | single _ ih => exact ih depth rest
  | chain op _ _ ih₁ ih₂ => simp [ih₁, ih₂]

theorem Derives.isBalanced (h : Derives valid part tokens) : isBalanced 0 tokens = true := by
  simpa using h.isBalanced_append 0 []

theorem Derives.alternates_append (h : Derives valid part tokens)
    (hrest : Alternates valid false rest) : Alternates valid true (tokens ++ rest) := by
  induction h generalizing rest with
  | number hv => exact .number hv hrest
  | @group inner _ ih =>
      rw [List.cons_append, List.append_assoc]
      exact .opening (ih (.closing hrest))
  | single _ ih => exact ih hrest
  | chain op _ _ ih₁ ih₂ =>
      rw [List.append_assoc]
      exact ih₁ (.operator op (ih₂ hrest))

theorem Derives.alternates (h : Derives valid part tokens) : Alternates valid true tokens := by
  simpa using h.alternates_append .done

/-- The grammar does not care how a sequence is split at an operator outside of
all groups: two expressions with one between them make an expression. -/
theorem Derives.append_chain {first : List Token} (hfirst : Derives valid .expression first)
    (op : Operator) (h : Derives valid .expression tokens) :
    Derives valid .expression (first ++ .operator op :: tokens) := by
  generalize hp : Part.expression = part at h
  induction h with
  | number _ => cases hp
  | group _ _ => cases hp
  | single hlast _ => exact .chain op hfirst hlast
  | @chain front last op' _ hlast ih _ =>
      have := Derives.chain op' (ih hp) hlast
      rwa [List.append_assoc] at this

/-! ## The tokens of alternating sequences -/

theorem Alternates.proper (h : Alternates valid due tokens) : ∀ t ∈ tokens, t.Proper := by
  induction h with
  | done =>
      intro t ht
      exact absurd ht List.not_mem_nil
  | number _ _ ih => exact List.forall_mem_cons.mpr ⟨.number _, ih⟩
  | opening _ ih => exact List.forall_mem_cons.mpr ⟨.opening, ih⟩
  | operator op _ ih => exact List.forall_mem_cons.mpr ⟨.operator op, ih⟩
  | closing _ ih => exact List.forall_mem_cons.mpr ⟨.closing, ih⟩

theorem Alternates.valid_text (h : Alternates valid due tokens) :
    ∀ t ∈ tokens, t.isNumber = true → valid t.text := by
  induction h with
  | done =>
      intro t ht
      exact absurd ht List.not_mem_nil
  | number hv _ ih => exact List.forall_mem_cons.mpr ⟨fun _ => hv, ih⟩
  | opening _ ih => exact List.forall_mem_cons.mpr ⟨nofun, ih⟩
  | operator op _ ih => exact List.forall_mem_cons.mpr ⟨nofun, ih⟩
  | closing _ ih => exact List.forall_mem_cons.mpr ⟨nofun, ih⟩

theorem Derives.proper (h : Derives valid part tokens) : ∀ t ∈ tokens, t.Proper :=
  h.alternates.proper

theorem Derives.ne_nil (h : Derives valid part tokens) : tokens ≠ [] := by
  rintro rfl
  cases h.alternates

theorem Derives.of_texts {valid' : String → Prop} (h : Derives valid part tokens)
    (htexts : ∀ t ∈ tokens, t.isNumber = true → valid' t.text) : Derives valid' part tokens := by
  induction h with
  | number _ => exact .number (htexts _ List.mem_cons_self rfl)
  | group _ ih =>
      obtain ⟨hinner, _⟩ := List.forall_mem_append.mp (List.forall_mem_cons.mp htexts).2
      exact .group (ih hinner)
  | single _ ih => exact .single (ih htexts)
  | chain op _ _ ih₁ ih₂ =>
      obtain ⟨hfirst, hrest⟩ := List.forall_mem_append.mp htexts
      exact .chain op (ih₁ hfirst) (ih₂ (List.forall_mem_cons.mp hrest).2)

/-! ## Finding the phrases -/

/-- The rest of a sequence after an expression in it: the sequence ends there,
or a `)` stands next. -/
inductive Stops (valid : String → Prop) : List Token → Prop
  | done : Stops valid []
  | closing {rest : List Token} : Alternates valid false rest → Stops valid (.closing :: rest)

/-- An alternating sequence in which every `)` has its `(` begins with an
expression that goes as far as its own nesting depth does.  The induction is on
the length, since the expression inside a group is taken off as a whole. -/
theorem exists_expression : ∀ (n : Nat) {tokens : List Token} {depth : Nat},
    tokens.length ≤ n → Alternates valid true tokens → isBalanced depth tokens = true →
    ∃ phrase rest, tokens = phrase ++ rest ∧ Derives valid .expression phrase ∧
      Stops valid rest ∧ isBalanced depth rest = true
  | 0, [], _, _, h, _ => by cases h
  | n + 1, tokens, depth, hn, h, hb => by
      -- first the operand at the front, with what follows it
      have hoperand : ∃ operand rest, tokens = operand ++ rest ∧
          Derives valid .operand operand ∧ Alternates valid false rest ∧
          isBalanced depth rest = true ∧ rest.length ≤ n := by
        cases h with
        | @number text rest hv hrest =>
            exact ⟨[.number text], rest, rfl, .number hv, hrest, hb, Nat.le_of_succ_le_succ hn⟩
        | @opening inside hinside =>
            obtain ⟨inner, _, rfl, hinner, hstop, hb'⟩ :=
              exists_expression n (Nat.le_of_succ_le_succ hn) hinside hb
            cases hstop with
            | done => cases hb'
            | @closing rest hrest =>
                refine ⟨.opening :: (inner ++ [.closing]), rest, by simp, .group hinner, hrest,
                  by simpa using hb', ?_⟩
                simp only [List.length_cons, List.length_append] at hn
                omega
      obtain ⟨operand, rest, rfl, hop, hrest, hb', hlen⟩ := hoperand
      cases hrest with
      | done => exact ⟨operand, [], by simp, .single hop, .done, hb'⟩
      | closing hrest => exact ⟨operand, _, rfl, .single hop, .closing hrest, hb'⟩
      | @operator rest op hrest =>
          obtain ⟨phrase, rest, rfl, hphrase, hstop, hb''⟩ :=
            exists_expression n (Nat.le_of_succ_le hlen) hrest hb'
          exact ⟨operand ++ .operator op :: phrase, rest, by simp,
            hop.single.append_chain op hphrase, hstop, hb''⟩

/-- The grammar is alternation and balance. -/
theorem derives_iff :
    Derives valid .expression tokens ↔
      Alternates valid true tokens ∧ isBalanced 0 tokens = true := by
  constructor
  · intro h
    exact ⟨h.alternates, h.isBalanced⟩
  · rintro ⟨h, hb⟩
    obtain ⟨phrase, rest, rfl, hphrase, hstop, hb'⟩ := exists_expression _ (Nat.le_refl _) h hb
    cases hstop with
    | done => simpa using hphrase
    | closing _ => cases hb'

end Structure
end Stepwise
