import Stepwise.Proofs.Structure.Check
import Stepwise.Proofs.Token.Characters

/-!
# Tokenizing undoes writing

The texts of an expression's tokens, written one after another with any blanks
before, between and after them, tokenize to the same tokens.  Tokens may touch:
where one ends is decided by what comes next, and that operands and operators
take turns settles each case.  After an operand comes an operator or a `)`, so
that a `-` is never taken for a sign; where an operand is due there is no
operator, so that a `-` is always the sign of a literal and no `*` follows
another by accident.

`Spaced` relates the tokens to the texts they can be written as, and `Resumes` is
the invariant of the induction along the sequence.
-/

namespace Stepwise

open Lexeme

/-! ## The characters of literals -/

namespace Decimal

variable {cs : List Char}

theorem Unsigned.isText (h : Unsigned cs) : ∀ c ∈ cs, IsText c := by
  intro c hc
  rcases h.isDigit_or_eq_point c hc with hdigit | rfl
  · exact isText_of_isDigit hdigit
  · exact isText_point

theorem Unsigned.ne_nil (h : Unsigned cs) : cs ≠ [] := by
  obtain ⟨c, rest, rfl, _⟩ := h.exists_cons
  exact List.cons_ne_nil c rest

theorem Literal.ne_nil (h : Literal cs) : cs ≠ [] := by
  cases h with
  | positive h => exact h.ne_nil
  | negative _ => exact List.cons_ne_nil _ _

theorem Literal.append_ne_star (h : Literal cs) (tail rest : List Char) :
    cs ++ tail ≠ '*' :: rest := by
  intro heq
  cases h with
  | positive h =>
      obtain ⟨c, _, rfl, hc⟩ := h.exists_cons
      rw [(List.cons.inj heq).1] at hc
      exact absurd hc (by decide)
  | negative _ => exact absurd (List.cons.inj heq).1 (by decide)

theorem isAlpha_of_isDigit {c : Char} (h : c.isDigit = true) : c.isAlpha = false := by
  have hle : c.toNat ≤ '9'.toNat := (Char.isDigit_iff_toNat.mp h).2
  refine Bool.eq_false_iff.mpr ?_
  intro halpha
  rcases (Bool.or_eq_true _ _).mp halpha with hupper | hlower
  · have hge : 'A'.toNat ≤ c.toNat := UInt32.le_iff_toNat_le.mp (of_decide_eq_true hupper).1
    exact absurd (Nat.le_trans hge hle) (by decide)
  · obtain ⟨hge, _⟩ := (Bool.and_eq_true _ _).mp hlower
    have hge : 'a'.toNat ≤ c.toNat := UInt32.le_iff_toNat_le.mp (of_decide_eq_true hge)
    exact absurd (Nat.le_trans hge hle) (by decide)

theorem Literal.letter?_eq_none (h : Literal cs) : Bindings.letter? cs = none := by
  cases h with
  | positive h =>
      obtain ⟨c, rest, rfl, hc⟩ := h.exists_cons
      cases rest with
      | nil => rw [Bindings.letter?, isAlpha_of_isDigit hc]; rfl
      | cons d rest => rfl
  | negative h =>
      obtain ⟨c, rest, rfl, _⟩ := h.exists_cons
      rfl

end Decimal

namespace Token

/-! ## Writing with blanks -/

/-- The characters are the texts of the tokens with blanks before, between and
after them, as many as one likes. -/
inductive Spaced : List Token → List Char → Prop
  | nil {gap : List Char} : (∀ c ∈ gap, c ∈ blanks) → Spaced [] gap
  | cons {gap cs : List Char} {t : Token} {tokens : List Token} : (∀ c ∈ gap, c ∈ blanks) →
      Spaced tokens cs → Spaced (t :: tokens) (gap ++ (t.text.toList ++ cs))

variable {b : Bindings} {context : Context} {run cs gap : List Char} {tokens : List Token}

theorem Spaced.blank {c : Char} (hc : c ∈ blanks) (h : Spaced tokens cs) :
    Spaced tokens (c :: cs) := by
  cases h with
  | nil hgap => exact .nil (List.forall_mem_cons.mpr ⟨hc, hgap⟩)
  | cons hgap h => exact .cons (List.forall_mem_cons.mpr ⟨hc, hgap⟩) h

theorem spaced_render (tokens : List Token) : Spaced tokens (render tokens).toList := by
  rw [render, String.toList_intercalate, List.map_map]
  induction tokens with
  | nil => exact .nil fun _ hc => absurd hc List.not_mem_nil
  | cons t tokens ih =>
      have hgap : ∀ c ∈ ([] : List Char), c ∈ blanks := fun _ hc => absurd hc List.not_mem_nil
      cases tokens with
      | nil => simpa using @Spaced.cons _ _ t _ hgap (.nil hgap)
      | cons u tokens =>
          rw [List.map_cons, List.map_cons, List.intercalate_cons_cons, List.append_assoc]
          exact .cons hgap (.blank List.mem_cons_self ih)

/-! ## One token at a time -/

theorem ofRun_literal (h : Decimal.Literal run) : ofRun b run = [number (.ofList run)] := by
  rw [ofRun, if_neg (by simpa using h.ne_nil), Bindings.resolve?, h.letter?_eq_none]
  rfl

/-- Where an operand is due, a literal is read as a whole, its sign with it. -/
theorem ofChars_literal {lit : List Char} (hcontext : context ≠ .operand)
    (h : Decimal.Literal lit) :
    ofChars b context [] (lit ++ cs) = ofChars b .operand lit cs := by
  cases h with
  | positive h => exact ofChars_texts h.ne_nil h.isText
  | @negative lit h =>
      have hsign : context.takesSign (scan (lit ++ cs)) = true := by
        obtain ⟨c, rest, rfl, hc⟩ := h.exists_cons
        cases context with
        | start => rfl
        | operand => exact absurd rfl hcontext
        | operator => exact (Context.digitNext_scan _).trans hc
      rw [List.cons_append, ofChars_sign hsign]
      exact ofChars_texts h.ne_nil h.isText

theorem ofChars_gap (hgap : ∀ c ∈ gap, c ∈ blanks) :
    ofChars b context [] (gap ++ cs) = ofChars b context [] cs := by
  induction gap with
  | nil => rfl
  | cons c gap ih =>
      rw [List.cons_append, ofChars_blank (hgap c List.mem_cons_self), ofRun_nil, List.nil_append]
      exact ih fun d hd => hgap d (List.mem_cons_of_mem c hd)

theorem ofChars_gap_run (hgap : ∀ c ∈ gap, c ∈ blanks)
    (h : ∀ run, ofChars b context run cs = ofRun b run ++ tokens) (run : List Char) :
    ofChars b context run (gap ++ cs) = ofRun b run ++ tokens := by
  cases gap with
  | nil => exact h run
  | cons c gap =>
      rw [List.cons_append, ofChars_blank (hgap c List.mem_cons_self),
        ofChars_gap fun d hd => hgap d (List.mem_cons_of_mem c hd), h, ofRun_nil, List.nil_append]

/-- After an operand, an operator is read as it was written, unless it is a `*`
and another one touches it. -/
theorem ofChars_operator (op : Operator) (hstar : ∀ rest, cs ≠ '*' :: rest) (run : List Char) :
    ofChars b .operand run (op.symbol.toList ++ cs) =
      ofRun b run ++ operator op :: ofChars b .operator [] cs := by
  cases op with
  | power => exact ofChars_power
  | multiply => exact ofChars_symbol .star nofun fun _ => hstar
  | divide => exact ofChars_symbol .slash nofun nofun
  | remainder => exact ofChars_symbol .percent nofun nofun
  | add => exact ofChars_symbol .plus nofun nofun
  | subtract => exact ofChars_symbol .minus (fun _ => rfl) nofun

theorem ofChars_opening :
    ofChars b context run ('(' :: cs) = ofRun b run ++ opening :: ofChars b .operator [] cs :=
  ofChars_symbol .opening nofun nofun

theorem ofChars_closing :
    ofChars b context run (')' :: cs) = ofRun b run ++ closing :: ofChars b .operand [] cs :=
  ofChars_symbol .closing nofun nofun

/-! ## A whole sequence -/

/-- Reading `cs` gives `tokens`: from any place where an operand is due, or else
after an operand, whose last token may still be in progress. -/
def Resumes (b : Bindings) (tokens : List Token) (cs : List Char) : (due : Bool) → Prop
  | true => ∀ context, context ≠ .operand → ofChars b context [] cs = tokens
  | false => ∀ run, ofChars b .operand run cs = ofRun b run ++ tokens

open Structure (Alternates IsLiteral)

theorem Spaced.ne_star (hs : Spaced tokens cs) (h : Alternates IsLiteral true tokens)
    (rest : List Char) : cs ≠ '*' :: rest := by
  intro heq
  cases hs with
  | nil _ => cases h
  | @cons gap _ _ _ hgap _ =>
      cases gap with
      | cons c gap =>
          have hc := hgap c List.mem_cons_self
          rw [(List.cons.inj heq).1] at hc
          exact absurd hc (by decide)
      | nil =>
          cases h with
          | number hlit _ => exact hlit.append_ne_star _ _ heq
          | opening _ => exact absurd (List.cons.inj heq).1 (by decide)

/-- Whatever blanks stand between its tokens, a sequence of operands and
operators that take turns is read back. -/
theorem resumes_of_alternates {due : Bool} (h : Alternates IsLiteral due tokens)
    (hs : Spaced tokens cs) : Resumes b tokens cs due := by
  induction h generalizing cs with
  | done =>
      cases hs with
      | @nil gap hgap =>
          intro run
          have hend : ∀ run, ofChars b .operand run [] = ofRun b run ++ [] := by
            intro run
            rw [ofChars_nil, List.append_nil]
          simpa using ofChars_gap_run hgap hend run
  | @number text rest hlit _ ih =>
      cases hs with
      | cons hgap hs =>
          intro context hcontext
          rw [ofChars_gap hgap, text_number, ofChars_literal hcontext hlit, ih hs,
            ofRun_literal hlit, String.ofList_toList]
          rfl
  | @opening rest _ ih =>
      cases hs with
      | @cons gap cs _ _ hgap hs =>
          intro context _
          have hrest : ofChars b .operator [] cs = rest := ih hs .operator nofun
          show ofChars b context [] (gap ++ '(' :: cs) = .opening :: rest
          rw [ofChars_gap hgap, ofChars_opening, hrest, ofRun_nil, List.nil_append]
  | @operator rest op h ih =>
      cases hs with
      | @cons gap cs _ _ hgap hs =>
          have hrest : ofChars b .operator [] cs = rest := ih hs .operator nofun
          refine ofChars_gap_run hgap ?_
          intro run
          show ofChars b .operand run (op.symbol.toList ++ cs) = ofRun b run ++ .operator op :: rest
          rw [ofChars_operator op (hs.ne_star h), hrest]
  | @closing rest _ ih =>
      cases hs with
      | @cons gap cs _ _ hgap hs =>
          have hrest : ofChars b .operand [] cs = rest := ih hs []
          refine ofChars_gap_run hgap ?_
          intro run
          show ofChars b .operand run (')' :: cs) = ofRun b run ++ .closing :: rest
          rw [ofChars_closing, hrest]

/-- Tokenizing undoes writing: of the tokens of an expression, written with any
blanks before, between and after them, and so also of their usual rendering. -/
theorem ofText_eq_of_spaced (hp : ∀ t ∈ tokens, t.Proper) (h : Structure.fault? tokens = none)
    (b : Bindings) :
    (∀ text : String, Spaced tokens text.toList → ofText b text = tokens) ∧
      ofText b (render tokens) = tokens := by
  have halt : Alternates IsLiteral true tokens :=
    (Structure.derives_of_fault?_eq_none hp h).alternates
  have hread : ∀ text : String, Spaced tokens text.toList → ofText b text = tokens := by
    intro text hs
    rw [ofText_eq]
    exact resumes_of_alternates halt hs .start nofun
  exact ⟨hread, hread _ (spaced_render tokens)⟩

/-- Signs beside a subtraction, a power and a product. -/
def signs : List Token :=
  [opening, number "-2", operator .subtract, number "-3", closing, operator .power, number "-0.5",
    operator .multiply, number "-1."]

theorem spaced_signs : Spaced signs "(-2--3)\t** -0.5*-1.".toList :=
  have touching : ∀ c ∈ ([] : List Char), c ∈ blanks := fun _ hc => absurd hc List.not_mem_nil
  have tab : ∀ c ∈ ['\t'], c ∈ blanks := by simp [blanks]
  have space : ∀ c ∈ [' '], c ∈ blanks := by simp [blanks]
  .cons touching <| .cons touching <| .cons touching <| .cons touching <| .cons touching <|
    .cons tab <| .cons space <| .cons touching <| .cons touching <| .nil touching

theorem ofText_signs :
    (∀ t ∈ signs, t.Proper) ∧ Structure.fault? signs = none ∧
      ofText .empty "(-2--3)\t** -0.5*-1." = signs ∧ ofText .empty (render signs) = signs := by
  have hp : ∀ t ∈ signs, t.Proper := by decide
  have hfault : Structure.fault? signs = none := by decide
  obtain ⟨hread, hrender⟩ := ofText_eq_of_spaced hp hfault .empty
  exact ⟨hp, hfault, hread _ spaced_signs, hrender⟩

end Token
end Stepwise
