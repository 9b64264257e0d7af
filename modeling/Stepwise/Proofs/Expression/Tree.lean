import Stepwise.Proofs.Structure.Grammar
import Stepwise.Reduction

/-!
# Syntax trees

The grammar with precedence, every level associating to the left, powers too:

    Sum     ::= Product | Sum ('+' | '-') Product
    Product ::= Power | Product ('*' | '/' | '%') Power
    Power   ::= Atom | Power '**' Atom
    Atom    ::= number | '(' Sum ')'

`Reads` relates a token sequence to its tree.  Levels are numbers, `Atom` is 0 and `Sum` is 3,
and `Joins` lists the operators of each level as they are written.  The tiers in which the
operators are reduced have no part in the grammar; that they agree with its levels is
`joins_iff`, and the proofs go by it.

Main statement: the sequences that have a tree are those of the grammar without precedence.
-/

namespace Stepwise

inductive Tree where
  | literal (text : String)
  | group (inner : Tree)
  | node (op : Operator) (left right : Tree)

/-- The result of a tree, as a text: a literal stands for itself, a group for
what is in it, and a node for its operator's result on the numbers of its sides,
written out. -/
def Tree.result : Tree → String
  | .literal text => text
  | .group inner => inner.result
  | .node op left right => (op.apply (.ofText left.result) (.ofText right.result)).toText

/-- The operators, as they are written, that join a right operand of a level to what is of
the next: `**` before an `Atom`, `*`, `/` and `%` before a `Power`, `+` and `-` before a
`Product`. -/
inductive Joins : (level : Nat) → (symbol : String) → Operator → Prop
  | power : Joins 0 "**" .power
  | multiply : Joins 1 "*" .multiply
  | divide : Joins 1 "/" .divide
  | remainder : Joins 1 "%" .remainder
  | add : Joins 2 "+" .add
  | subtract : Joins 2 "-" .subtract

/-- The tokens are those of the tree, as an `Atom` (level 0), a `Power` (1), a
`Product` (2) or a `Sum` (3). -/
inductive Reads : (level : Nat) → List Token → Tree → Prop
  | literal (text : String) : Reads 0 [⟨.number, text⟩] (.literal text)
  | group {tokens : List Token} {tree : Tree} : Reads 3 tokens tree →
      Reads 0 (⟨.parenthesis, "("⟩ :: (tokens ++ [⟨.parenthesis, ")"⟩])) (.group tree)
  | single {level : Nat} {tokens : List Token} {tree : Tree} : Reads level tokens tree →
      Reads (level + 1) tokens tree
  | join {level : Nat} {first last : List Token} {left right : Tree} {symbol : String}
      {op : Operator} : Joins level symbol op → Reads (level + 1) first left →
      Reads level last right →
      Reads (level + 1) (first ++ ⟨.operator, symbol⟩ :: last) (.node op left right)

/-! ## Levels and tiers -/

theorem joins_iff {level : Nat} {symbol : String} {op : Operator} :
    Joins level symbol op ↔ symbol = op.symbol ∧ op.tier.rank = level := by
  constructor
  · intro h
    cases h <;> exact ⟨rfl, rfl⟩
  · rintro ⟨rfl, rfl⟩
    cases op with
    | power => exact .power
    | multiply => exact .multiply
    | divide => exact .divide
    | remainder => exact .remainder
    | add => exact .add
    | subtract => exact .subtract

theorem Reads.node {level : Nat} {first last : List Token} {left right : Tree} (op : Operator)
    (hrank : op.tier.rank = level) (hfirst : Reads (level + 1) first left)
    (hlast : Reads level last right) :
    Reads (level + 1) (first ++ .operator op :: last) (.node op left right) :=
  .join (joins_iff.mpr ⟨rfl, hrank⟩) hfirst hlast

/-- Induction over the rules of the grammar, with the tier of an operator for its level. -/
@[induction_eliminator, cases_eliminator]
theorem Reads.inductionOn
    {motive : (level : Nat) → (tokens : List Token) → (tree : Tree) →
      Reads level tokens tree → Prop}
    (literal : ∀ text, motive 0 [.number text] (.literal text) (.literal text))
    (group : ∀ {tokens tree} (h : Reads 3 tokens tree), motive 3 tokens tree h →
      motive 0 (.opening :: (tokens ++ [Token.closing])) (.group tree) (.group h))
    (single : ∀ {level tokens tree} (h : Reads level tokens tree), motive level tokens tree h →
      motive (level + 1) tokens tree (.single h))
    (node : ∀ {level first last left right} (op : Operator) (hrank : op.tier.rank = level)
      (hfirst : Reads (level + 1) first left) (hlast : Reads level last right),
      motive (level + 1) first left hfirst → motive level last right hlast →
      motive (level + 1) (first ++ .operator op :: last) (.node op left right)
        (.node op hrank hfirst hlast))
    {level : Nat} {tokens : List Token} {tree : Tree} (h : Reads level tokens tree) :
    motive level tokens tree h := by
  induction h using Reads.rec with
  | literal text => exact literal text
  | group h ih => exact group h ih
  | single h ih => exact single h ih
  | join hjoins hfirst hlast ih₁ ih₂ =>
      obtain ⟨rfl, hrank⟩ := joins_iff.mp hjoins
      exact node _ hrank hfirst hlast ih₁ ih₂

namespace Reads

variable {level level' : Nat} {tokens : List Token} {tree : Tree}

theorem lift (h : Reads level tokens tree) (hle : level ≤ level') :
    Reads level' tokens tree := by
  induction hle with
  | refl => exact h
  | step _ ih => exact ih.single

theorem number (text : String) (level : Nat) : Reads level [.number text] (.literal text) :=
  (literal text).lift (Nat.zero_le level)

/-! ## Trees and the grammar without precedence -/

theorem derives (h : Reads level tokens tree) :
    Structure.Derives (fun _ => True) .expression tokens := by
  induction h with
  | literal text => exact .single (.number trivial)
  | group _ ih => exact .single (.group ih)
  | single _ ih => exact ih
  | node op _ _ _ ih₁ ih₂ => exact ih₁.append_chain op ih₂

theorem eq_number_of_length (h : Reads level tokens tree) (hlength : tokens.length = 1) :
    tokens = [.number tree.result] := by
  induction h with
  | literal text => rfl
  | group _ _ => simp at hlength
  | single _ ih => exact ih hlength
  | node op _ hfirst _ _ _ =>
      have := List.length_pos_iff.mpr hfirst.derives.ne_nil
      rw [List.length_append, List.length_cons] at hlength
      omega

/-- An operator and an atom can follow the tokens of a tree: the tree takes them
in at the level of the operator, down its right edge. -/
theorem exists_append (h : Reads level tokens tree) (op : Operator) (hlt : op.tier.rank < level)
    {last : List Token} {right : Tree} (hlast : Reads 0 last right) :
    ∃ tree', Reads level (tokens ++ .operator op :: last) tree' := by
  induction h with
  | literal _ => exact absurd hlt (Nat.not_lt_zero _)
  | group _ _ => exact absurd hlt (Nat.not_lt_zero _)
  | @single level tokens tree h ih =>
      rcases Nat.lt_succ_iff_lt_or_eq.mp hlt with hlt | heq
      · obtain ⟨tree', h'⟩ := ih hlt
        exact ⟨tree', h'.single⟩
      · exact ⟨_, .node op heq h.single (hlast.lift (Nat.zero_le _))⟩
  | @node level front back left right op' heq' hfront hback _ ih =>
      rcases Nat.lt_succ_iff_lt_or_eq.mp hlt with hlt | heq
      · obtain ⟨tree', h'⟩ := ih hlt
        refine ⟨.node op' left tree', ?_⟩
        rw [List.append_assoc]
        exact .node op' heq' hfront h'
      · exact ⟨_, .node op heq (.node op' heq' hfront hback) (hlast.lift (Nat.zero_le _))⟩

/-! ## One tree

For a sequence without parentheses: the operator at the top is the last one of the
loosest tier, so the sequence can be taken apart in one way only. -/

theorem rank_lt (h : Reads level tokens tree) (hflat : Structure.Flat tokens) {op : Operator}
    (hmem : .operator op ∈ tokens) : op.tier.rank < level := by
  induction h with
  | literal text => exact absurd (List.mem_singleton.mp hmem) nofun
  | group _ _ => exact Bool.noConfusion (hflat _ List.mem_cons_self)
  | single _ ih => exact Nat.lt_succ_of_lt (ih hflat hmem)
  | @node level first last left right op' hrank _ _ ih₁ ih₂ =>
      obtain ⟨hfirst, hrest⟩ := List.forall_mem_append.mp hflat
      obtain ⟨_, hlast⟩ := List.forall_mem_cons.mp hrest
      rcases List.mem_append.mp hmem with hmem | hmem
      · exact ih₁ hfirst hmem
      · rcases List.mem_cons.mp hmem with heq | hmem
        · rw [Token.operator_injective heq, hrank]
          exact Nat.lt_succ_self level
        · exact Nat.lt_succ_of_lt (ih₂ hlast hmem)

/-- An operator that does not come again splits a sequence in one way. -/
theorem eq_of_append_operator {first last first' last' : List Token} {op op' : Operator}
    (h : first ++ .operator op :: last = first' ++ .operator op' :: last')
    (hlast : .operator op' ∉ last) (hlast' : .operator op ∉ last') :
    first' = first ∧ op' = op ∧ last' = last := by
  rcases List.append_eq_append_iff.mp h with ⟨middle, rfl, hrest⟩ | ⟨middle, rfl, hrest⟩
  · cases middle with
    | nil =>
        obtain ⟨hop, hlasts⟩ := List.cons.inj hrest
        exact ⟨List.append_nil first, (Token.operator_injective hop).symm, hlasts.symm⟩
    | cons t middle =>
        refine absurd ?_ hlast
        rw [(List.cons.inj hrest).2]
        exact List.mem_append_right middle List.mem_cons_self
  · cases middle with
    | nil =>
        obtain ⟨hop, hlasts⟩ := List.cons.inj hrest
        exact ⟨(List.append_nil first').symm, Token.operator_injective hop, hlasts⟩
    | cons t middle =>
        refine absurd ?_ hlast'
        rw [(List.cons.inj hrest).2]
        exact List.mem_append_right middle List.mem_cons_self

/-- A sequence without parentheses has at most one tree of a level. -/
theorem eq_of_flat {tree' : Tree} (h : Reads level tokens tree) (h' : Reads level tokens tree')
    (hflat : Structure.Flat tokens) : tree' = tree := by
  induction h generalizing tree' with
  | literal text =>
      generalize htokens : [Token.number text] = tokens at h'
      cases h' with
      | literal text' =>
          have htext := (List.cons.inj htokens).1
          injection htext with _ htext
          rw [htext]
      | group _ => exact nomatch (List.cons.inj htokens).1
  | group _ _ => exact Bool.noConfusion (hflat _ List.mem_cons_self)
  | single h ih =>
      cases h' with
      | single h' => exact ih h' hflat
      | node op hrank _ _ =>
          have hlt := h.rank_lt hflat (List.mem_append_right _ List.mem_cons_self)
          omega
  | @node level first last left right op hrank hfirst hlast ih₁ ih₂ =>
      obtain ⟨hflat₁, hrest⟩ := List.forall_mem_append.mp hflat
      have hflat₂ := (List.forall_mem_cons.mp hrest).2
      generalize htokens : first ++ .operator op :: last = tokens at h' hflat
      cases h' with
      | single h' =>
          have hlt := h'.rank_lt hflat (htokens ▸ List.mem_append_right _ List.mem_cons_self)
          omega
      | @node _ first' last' left' right' op' hrank' hfirst' hlast' =>
          have hflat' := (List.forall_mem_cons.mp (List.forall_mem_append.mp hflat).2).2
          obtain ⟨rfl, rfl, rfl⟩ := eq_of_append_operator htokens
            (fun hmem => by have := hlast.rank_lt hflat₂ hmem; omega)
            (fun hmem => by have := hlast'.rank_lt hflat' hmem; omega)
          rw [ih₁ hfirst' hflat₁, ih₂ hlast' hflat₂]

end Reads

theorem Operator.rank_lt (op : Operator) : op.tier.rank < 3 := by
  cases op <;> decide

/-- The tightest level of the trees of every part of this kind. -/
def Structure.Part.level : Structure.Part → Nat
  | .operand => 0
  | .expression => 3

/-- Every expression has a tree. -/
theorem exists_reads {valid : String → Prop} {part : Structure.Part} {tokens : List Token}
    (h : Structure.Derives valid part tokens) : ∃ tree, Reads part.level tokens tree := by
  induction h with
  | number _ => exact ⟨_, .literal _⟩
  | group _ ih =>
      obtain ⟨tree, h⟩ := ih
      exact ⟨_, .group h⟩
  | single _ ih =>
      obtain ⟨tree, h⟩ := ih
      exact ⟨tree, h.lift (Nat.zero_le 3)⟩
  | chain op _ _ ih₁ ih₂ =>
      obtain ⟨tree, h⟩ := ih₁
      obtain ⟨right, hlast⟩ := ih₂
      exact h.exists_append op op.rank_lt hlast

/-- The tree of `8-2*3**2%5+6/4`. -/
def Tree.allLevels : Tree :=
  .node .add
    (.node .subtract (.literal "8")
      (.node .remainder
        (.node .multiply (.literal "2") (.node .power (.literal "3") (.literal "2")))
        (.literal "5")))
    (.node .divide (.literal "6") (.literal "4"))

theorem reads_allLevels :
    Reads 3 [⟨.number, "8"⟩, ⟨.operator, "-"⟩, ⟨.number, "2"⟩, ⟨.operator, "*"⟩, ⟨.number, "3"⟩,
      ⟨.operator, "**"⟩, ⟨.number, "2"⟩, ⟨.operator, "%"⟩, ⟨.number, "5"⟩, ⟨.operator, "+"⟩,
      ⟨.number, "6"⟩, ⟨.operator, "/"⟩, ⟨.number, "4"⟩] .allLevels := by
  have hpower := Reads.join .power (.number "3" 1) (.number "2" 0)
  have hproduct := Reads.join .multiply (.number "2" 2) hpower
  have hremainder := Reads.join .remainder hproduct (.number "5" 1)
  have hdifference := Reads.join .subtract (.number "8" 3) hremainder
  have hquotient := Reads.join .divide (.number "6" 2) (.number "4" 1)
  exact .join .add hdifference hquotient

end Stepwise
