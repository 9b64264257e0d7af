import Stepwise.Expression.OfInput
import Stepwise.Proofs.Block.Deepest
import Stepwise.Proofs.Structure.Check
import Stepwise.Proofs.Token.Proper

/-!
# What a step does

An expression comes from a text or from an input with bindings.  Its tokens are
those of a tree, and as long as they are, a step succeeds: it puts the result of
a redex in its place, which leaves tokens of a tree with the same result.
`Steps` says all that a step does, and nothing below unfolds `next` again.
-/

namespace Stepwise

namespace Expression

/-! ## Parsed expressions -/

/-- The expression is what a text under some bindings, or an input, was parsed
to. -/
inductive Parsed (e : Expression) : Prop
  | ofText {b : Bindings} {text : String} : parseWith b text = .ok e → Parsed e
  | ofInput {input : String} : parse input = .ok e → Parsed e

theorem parseWith_eq_ok {b : Bindings} {text : String} {e : Expression}
    (h : parseWith b text = .ok e) :
    e.parsed = e.tokens ∧ e.steps = 0 ∧ e.tokens = Token.ofText b text ∧
      Structure.Derives Structure.IsLiteral .expression e.tokens := by
  simp only [parseWith] at h
  split at h
  · cases h
  · next hfault =>
    cases h
    exact ⟨rfl, rfl, rfl,
      Structure.derives_of_fault?_eq_none (Token.proper_of_mem_ofText b text) hfault⟩

/-- Apart from the source, only the tokens of a text count. -/
theorem parseWith_of_ofText_eq {b b' : Bindings} {text text' : String} {e : Expression}
    (h : parseWith b text = .ok e) (htokens : Token.ofText b' text' = Token.ofText b text) :
    parseWith b' text' = .ok { e with source := text' } := by
  simp only [parseWith, htokens] at h ⊢
  split at h
  · cases h
  · cases h
    rfl

theorem exists_parseWith_eq_ok {b : Bindings} {text : String}
    (h : Structure.fault? (Token.ofText b text) = none) : ∃ e, parseWith b text = .ok e := by
  simp only [parseWith, h]
  exact ⟨_, rfl⟩

theorem exists_parseWith_of_parse {input : String} {e : Expression} (h : parse input = .ok e) :
    ∃ b text e', parseWith b text = .ok e' ∧ e = { e' with source := input } := by
  simp only [parse] at h
  split at h
  · cases h
  · next b _ =>
    generalize hp : parseWith b _ = parsed at h
    cases parsed with
    | error _ => cases h
    | ok e' =>
        cases h
        exact ⟨b, _, e', hp, rfl⟩

theorem Parsed.spec {e : Expression} (h : e.Parsed) :
    e.parsed = e.tokens ∧ e.steps = 0 ∧
      Structure.Derives Structure.IsLiteral .expression e.tokens := by
  cases h with
  | ofText h =>
      obtain ⟨hparsed, hsteps, _, hderives⟩ := parseWith_eq_ok h
      exact ⟨hparsed, hsteps, hderives⟩
  | ofInput h =>
      obtain ⟨b, text, e', he', rfl⟩ := exists_parseWith_of_parse h
      obtain ⟨hparsed, hsteps, _, hderives⟩ := parseWith_eq_ok he'
      exact ⟨hparsed, hsteps, hderives⟩

/-- A text parsed without bindings. -/
def ofSource (source : String) : Expression :=
  { source := source
    parsed := Token.ofText .empty source
    tokens := Token.ofText .empty source
    blocks := Block.cut (Token.ofText .empty source)
    value := startValue (Token.ofText .empty source)
    steps := 0 }

theorem parsed_ofSource {source : String}
    (h : Structure.fault? (Token.ofText .empty source) = none) : (ofSource source).Parsed := by
  refine @Parsed.ofText _ .empty source ?_
  simp only [parseWith, h]
  rfl

theorem Parsed.exists_reads {e : Expression} (h : e.Parsed) : ∃ tree, Reads 3 e.tokens tree :=
  Stepwise.exists_reads h.spec.2.2

/-! ## A step -/

/-- The expression after a step that left `tokens` and reduced its block to
`text`. -/
def stepped (e : Expression) (tokens : List Token) (text : String) : Expression :=
  { e with tokens := tokens, blocks := Block.cut tokens, value := .ofText text,
           steps := e.steps + 1 }

/-- The next step of an expression reduces the block of a redex to `text`. -/
structure Steps (e : Expression) (x : Redex) (b : Block) (text : String) : Prop where
  tokens_eq : x.tokens = e.tokens
  selected : Block.deepest? (Block.cut e.tokens) = some b
  covers : x.Covers b
  /-- The text is the result of what the block holds. -/
  reads_inner : ∃ tree, Reads 3 x.inner tree ∧ tree.result = text
  next_eq : e.next =
    (.ok (e.stepped (x.reduced text) text).evaluation, e.stepped (x.reduced text) text)

theorem length_reduced (x : Redex) (text : String) :
    (x.reduced text).length < x.tokens.length ∨ (x.reduced text).length = 1 := by
  cases x with
  | whole inner flat => exact .inr rfl
  | group before inner after flat =>
      refine .inl ?_
      simp only [Redex.tokens_group, Redex.reduced_group, List.length_append, List.length_cons]
      omega

variable {e f : Expression} {x : Redex} {b : Block} {text : String}

/-- A step reduces the block that is selected, if it covers a redex whose inside has a
tree. -/
theorem steps_of_covers {tree : Tree} (htokens : x.tokens = e.tokens)
    (hselected : Block.deepest? (Block.cut e.tokens) = some b) (hcovers : x.Covers b)
    (hinner : Reads 3 x.inner tree) : e.Steps x b tree.result := by
  refine ⟨htokens, hselected, hcovers, ⟨tree, hinner, rfl⟩, ?_⟩
  have hblock : Reduction.reduceBlock e.tokens b = (.ok tree.result, x.reduced tree.result) :=
    htokens ▸ Redex.reduceBlock_eq hcovers hinner
  have hprogress : (decide (1 < (x.reduced tree.result).length) &&
      decide (e.tokens.length ≤ (x.reduced tree.result).length)) = false := by
    have := length_reduced x tree.result
    rw [htokens] at this
    simp only [Bool.and_eq_false_iff, decide_eq_false_iff_not]
    omega
  simp only [next, hselected, hblock, hprogress]
  rfl

/-- An expression that has a tree takes a step, and keeps the result of the
tree. -/
theorem exists_steps {tree : Tree} (h : Reads 3 e.tokens tree) :
    ∃ x b text, e.Steps x b text ∧
      ∃ tree', Reads 3 (x.reduced text) tree' ∧ tree'.result = tree.result := by
  obtain ⟨x, b, htokens, hselected, hcovers⟩ := Block.exists_deepest?_cut h.derives
  obtain ⟨innerTree, hinner, hreduced⟩ := x.exists_reads_reduced (htokens ▸ h)
  exact ⟨x, b, innerTree.result, steps_of_covers htokens hselected hcovers hinner, hreduced⟩

theorem Steps.of_tokens_eq (h : e.Steps x b text) (htokens : f.tokens = e.tokens) :
    f.Steps x b text := by
  obtain ⟨tree, hinner, rfl⟩ := h.reads_inner
  exact steps_of_covers (h.tokens_eq.trans htokens.symm) (htokens ▸ h.selected) h.covers hinner

end Expression
end Stepwise
