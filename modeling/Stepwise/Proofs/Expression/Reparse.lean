import Stepwise.Proofs.Binary64.Text
import Stepwise.Proofs.Expression.Coherent
import Stepwise.Proofs.Expression.SameTokens
import Stepwise.Proofs.Token.RoundTrip

/-!
# Parsing a state again

What is printed of an expression in the course of its reduction is the text of an
expression again, and parsing it gives the same tokens.  Three things come together.
The tokens stay in the grammar, whatever the texts of their numbers (`Derives`).  Those
texts are literals or results written out (`IsNumberText`), and a finite result is
written as a literal.  And tokenizing undoes writing, also where a negative result has
come to stand next to an operator or a parenthesis.

An infinite result and one that is not a number are written as words, which no
expression may hold, so a state with such a number is left out.
-/

namespace Stepwise

open Structure (Derives IsLiteral)

/-- The texts that numbers have in the course of a reduction: what was written in the
expression, and what has been computed. -/
inductive IsNumberText : String → Prop
  | literal {text : String} : IsLiteral text → IsNumberText text
  | computed (x : Binary64) : IsNumberText x.toText

/-- The numbers among the tokens have such texts. -/
def HasNumberTexts (tokens : List Token) : Prop :=
  ∀ t ∈ tokens, t.isNumber = true → IsNumberText t.text

/-- No number among the tokens is infinite or not-a-number. -/
def AllFinite (tokens : List Token) : Prop :=
  ∀ t ∈ tokens, t.isNumber = true → t.text ≠ "inf" ∧ t.text ≠ "-inf" ∧ t.text ≠ "NaN"

instance : DecidablePred AllFinite := fun tokens =>
  inferInstanceAs (Decidable (∀ t ∈ tokens, t.isNumber = true →
    t.text ≠ "inf" ∧ t.text ≠ "-inf" ∧ t.text ≠ "NaN"))

variable {level : Nat} {tokens : List Token} {tree : Tree} {text : String}

/-! ## The texts of numbers -/

theorem IsNumberText.isLiteral (h : IsNumberText text)
    (hfinite : text ≠ "inf" ∧ text ≠ "-inf" ∧ text ≠ "NaN") : IsLiteral text := by
  obtain ⟨hinf, hneg, hnan⟩ := hfinite
  cases h with
  | literal h => exact h
  | computed x =>
      cases hx : x.isFinite with
      | true =>
          rw [IsLiteral, Binary64.toText, String.toList_ofList]
          exact Binary64.literal_toChars hx
      | false =>
          rcases Binary64.toText_of_not_isFinite hx with h | h | h
          · exact absurd h hnan
          · exact absurd h hinf
          · exact absurd h hneg

/-- The result of a tree is the text of one of its numbers, or it has been computed. -/
theorem Reads.isNumberText_result (h : Reads level tokens tree) (htexts : HasNumberTexts tokens) :
    IsNumberText tree.result := by
  induction h with
  | literal text => exact htexts _ List.mem_cons_self rfl
  | group _ ih =>
      obtain ⟨hinner, _⟩ := List.forall_mem_append.mp (List.forall_mem_cons.mp htexts).2
      exact ih hinner
  | single _ ih => exact ih htexts
  | node op _ _ _ _ _ => exact .computed _

namespace Expression

variable {e : Expression}

theorem Steps.hasNumberTexts {x : Redex} {b : Block} (h : e.Steps x b text)
    (htexts : HasNumberTexts e.tokens) : HasNumberTexts (x.reduced text) := by
  obtain ⟨tree, hinner, rfl⟩ := h.reads_inner
  rw [← h.tokens_eq] at htexts
  obtain ⟨hbefore, hrest⟩ := List.forall_mem_append.mp htexts
  obtain ⟨hregion, hafter⟩ := List.forall_mem_append.mp hrest
  have hresult : IsNumberText tree.result := by
    refine hinner.isNumberText_result ?_
    cases x with
    | whole inner flat => exact hregion
    | group before inner after flat =>
        exact (List.forall_mem_append.mp (List.forall_mem_cons.mp hregion).2).1
  exact List.forall_mem_append.mpr
    ⟨hbefore, List.forall_mem_cons.mpr ⟨fun _ => hresult, hafter⟩⟩

/-- In every state the numbers are what was written or what has been computed. -/
theorem Parsed.hasNumberTexts_after (h : e.Parsed) : ∀ n, HasNumberTexts (e.after n).tokens
  | 0 => fun t ht hnumber => .literal (h.spec.2.2.alternates.valid_text t ht hnumber)
  | n + 1 => by
      obtain ⟨tree, hreads⟩ := h.exists_reads
      obtain ⟨x, b, text, hstep, hafter, _⟩ := exists_steps_after hreads n
      rw [hafter]
      exact hstep.hasNumberTexts (h.hasNumberTexts_after n)

/-! ## Parsing again -/

/-- An expression whose numbers are literals is what its rendering is parsed to, under
any bindings. -/
theorem parseWith_render (h : Derives IsLiteral .expression e.tokens) (b : Bindings) :
    ∃ f, parseWith b e.render = .ok f ∧ f.tokens = e.tokens ∧ f.blocks = Block.cut e.tokens := by
  have htokens : Token.ofText b e.render = e.tokens :=
    Token.resumes_of_alternates h.alternates (Token.spaced_render e.tokens) .start nofun
  obtain ⟨f, hparse⟩ := exists_parseWith_eq_ok (htokens ▸ Structure.fault?_eq_none_of_derives h)
  have hf := (parseWith_eq_ok hparse).2.2.1.trans htokens
  exact ⟨f, hparse, hf, hf ▸ parseWith_blocks_eq hparse⟩

/-- In every state without an infinite number and without not-a-number, whatever has been
done to reach it: the rendering is parsed again, to the same tokens and blocks, and all
that follows is the same as for the expression itself. -/
theorem reparse_of_use (h : e.Parsed) (uses : List Use)
    (hfinite : AllFinite (e.use uses).2.tokens) (b : Bindings) :
    ∃ f, parseWith b (e.use uses).2.render = .ok f ∧
      f.tokens = (e.use uses).2.tokens ∧ f.blocks = (e.use uses).2.blocks ∧
      (∃ v, f.evaluateAll.1 = .ok v ∧ (e.use uses).2.evaluateAll.1 = .ok v) ∧
      ∀ more, outcomesOf (f.use more).1 = outcomesOf ((e.use uses).2.use more).1 := by
  obtain ⟨tree, hreads⟩ := h.exists_reads
  obtain ⟨hlast, _⟩ := use_eq hreads uses
  rw [hlast] at hfinite ⊢
  obtain ⟨tree', hreads', _⟩ := exists_reads_after hreads (e.stepsOf uses)
  have hliterals : ∀ t ∈ (e.after (e.stepsOf uses)).tokens, t.isNumber = true →
      IsLiteral t.text := by
    intro t ht hnumber
    exact (h.hasNumberTexts_after _ t ht hnumber).isLiteral (hfinite t ht hnumber)
  obtain ⟨f, hparse, htokens, hblocks⟩ := parseWith_render (hreads'.derives.of_texts hliterals) b
  refine ⟨f, hparse, htokens, ?_, ⟨_, ?_, congrArg Prod.fst (evaluateAll_eq hreads')⟩,
    use_of_tokens_eq hreads' htokens⟩
  · rw [hblocks, h.blocks_after]
  · rw [(evaluateAll_of_tokens_eq hreads' htokens).1, evaluateAll_eq hreads']

/-- A group with a negative result, after a subtraction. -/
def negativeGroup : Expression := ofSource "5-(2-3)"

theorem reparse_of_use_negativeGroup :
    negativeGroup.Parsed ∧ (negativeGroup.use [.next]).2.render = "5 - -1" ∧
      AllFinite (negativeGroup.use [.next]).2.tokens ∧
      ∃ f, parseWith .empty "5 - -1" = .ok f ∧
        f.tokens = [.number "5", .operator .subtract, .number "-1"] ∧
        ∃ v, f.evaluateAll.1 = .ok v ∧ (negativeGroup.use [.next]).2.evaluateAll.1 = .ok v := by
  have hparsed : negativeGroup.Parsed := @Parsed.ofText _ .empty "5-(2-3)" rfl
  have htokens : (negativeGroup.use [.next]).2.tokens =
      [.number "5", .operator .subtract, .number "-1"] := by decide +kernel
  have hrender : (negativeGroup.use [.next]).2.render = "5 - -1" := by
    rw [render, htokens]
    rfl
  have hfinite : AllFinite (negativeGroup.use [.next]).2.tokens := by
    rw [htokens]
    decide
  obtain ⟨f, hparse, hf, _, hall, _⟩ := reparse_of_use hparsed [.next] hfinite .empty
  rw [hrender] at hparse
  rw [htokens] at hf
  exact ⟨hparsed, hrender, hfinite, f, hparse, hf, hall⟩

end Expression
end Stepwise
