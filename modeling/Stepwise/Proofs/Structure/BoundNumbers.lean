import Stepwise.Proofs.Binary64.Text
import Stepwise.Proofs.Structure.Check
import Stepwise.Proofs.Token.Bound

/-!
# Which numbers can be bound

A bound letter comes before the check of the structure as the text of its number.  That
text is a literal just when the number is finite: the digits of a finite number are written
out, however many zeros that takes, and infinity and not-a-number are written as words.

So of all faults only one depends on the bindings, and only on whether the numbers in them
are finite (`isLiteral_toText_iff`).
-/

namespace Stepwise

namespace Decimal

variable {cs : List Char} {d : Decimal}

theorem Denotes.exists_places (h : Denotes cs d) (hd : d.exponent < 0) :
    ∃ whole fraction, cs = whole ++ fraction ∧ whole ≠ [] ∧ (∀ c ∈ whole, c.isDigit = true) ∧
      Fraction fraction ∧ fraction ≠ ['.'] := by
  cases h with
  | @intro whole fraction hne hdigits hf =>
      refine ⟨whole, fraction, rfl, hne, hdigits, hf, ?_⟩
      rintro rfl
      exact absurd hd (by simp)

/-- A decimal number is written with a digit at least and, if it has a point, with a digit
at least behind it. -/
theorem exists_positional (d : Decimal) :
    ∃ whole fraction, d.positional = whole ++ fraction ∧ whole ≠ [] ∧
      (∀ c ∈ whole, c.isDigit = true) ∧ Fraction fraction ∧ fraction ≠ ['.'] := by
  obtain ⟨significand, exponent⟩ := d
  cases exponent with
  | ofNat k =>
      refine ⟨_, [], (List.append_nil _).symm, ?_, ?_, .none, (List.cons_ne_nil _ _).symm⟩
      · exact List.append_ne_nil_of_left_ne_nil Nat.toDigits_ne_nil _
      · exact List.forall_mem_append.mpr ⟨isDigit_of_mem_toDigits, isDigit_of_mem_zeros⟩
  | negSucc k => exact (denotes_withPlaces significand k).exists_places (Int.negSucc_lt_zero k)

end Decimal

namespace Binary64

theorem isLiteral_toText (x : Binary64) : Decimal.isLiteral x.toText.toList = x.isFinite := by
  cases hx : x.isFinite with
  | true =>
      rw [toText, String.toList_ofList]
      exact Decimal.isLiteral_iff.mpr (literal_toChars hx)
  | false =>
      rcases toText_of_not_isFinite hx with h | h | h
      all_goals
        rw [h]
        decide

end Binary64

namespace Structure

open Token (number ofText)

variable {b : Bindings} {tokens : List Token} {t : Token}

/-- A number token that passes the check of numbers with these bindings: it holds a
literal, or it is a letter that is bound to a finite number. -/
inductive Holds (b : Bindings) : Token → Prop
  | literal {text : String} : IsLiteral text → Holds b (number text)
  | letter {c : Char} {x : Binary64} : c.isAlpha = true → b.get? c = some x →
      x.isFinite = true → Holds b (number (.singleton c))

theorem isLiteral_toText_iff_isFinite {x : Binary64} : IsLiteral x.toText ↔ x.isFinite = true := by
  rw [IsLiteral, ← Decimal.isLiteral_iff, Binary64.isLiteral_toText]

theorem not_isLiteral_singleton {c : Char} (hc : c.isAlpha = true) :
    ¬IsLiteral (.singleton c) := by
  intro hliteral
  rw [IsLiteral, String.toList_singleton] at hliteral
  have hletter := hliteral.letter?_eq_none
  rw [Bindings.letter?, if_pos hc] at hletter
  cases hletter

/-- A bound letter passes the check just when its number is finite. -/
theorem holds_letter_iff {c : Char} {x : Binary64} (hc : c.isAlpha = true)
    (hx : b.get? c = some x) : Holds b (number (.singleton c)) ↔ x.isFinite = true := by
  constructor
  · intro h
    generalize ht : number (.singleton c) = t at h
    cases h with
    | literal hliteral =>
        obtain rfl := congrArg Token.text ht
        exact absurd hliteral (not_isLiteral_singleton hc)
    | @letter d y _ hy hfinite =>
        have hchars := congrArg String.toList (congrArg Token.text ht)
        have hcd : c = d := by simpa [number] using hchars
        rw [← hcd, hx] at hy
        cases hy
        exact hfinite
  · exact .letter hc hx

theorem holds_iff (h : t.isNumber = true) : Holds b t ↔ IsLiteral (t.bound b).text := by
  by_cases hself : t.bound b = t
  · rw [hself]
    constructor
    · rintro (hliteral | ⟨hc, hx, _⟩)
      · exact hliteral
      · exact absurd hself (Token.bound_ne_self_iff.mpr ⟨_, _, rfl, hc, hx⟩)
    · obtain ⟨kind, text⟩ := t
      obtain rfl : kind = .number := beq_iff_eq.mp h
      exact .literal
  · obtain ⟨c, x, rfl, hc, hx⟩ := Token.bound_ne_self_iff.mp hself
    rw [holds_letter_iff hc hx, Token.bound_letter hc hx]
    exact isLiteral_toText_iff_isFinite.symm

/-! ## The one fault about numbers -/

/-- A text that is no number is reported just when the check of numbers finds one: no other
check comes before it in a sequence that has a number token. -/
theorem forall_fault?_ne_notANumber_iff :
    (∀ value, fault? tokens ≠ some (.notANumber value)) ↔ numberFault? tokens = none := by
  constructor
  · intro h
    cases hnumber : numberFault? tokens with
    | none => rfl
    | some fault =>
        obtain ⟨t, ht, rfl⟩ := Option.map_eq_some_iff.mp hnumber
        have hempty : emptyFault? tokens = none := by
          rw [emptyFault?_eq_none_iff]
          exact List.ne_nil_of_mem (List.mem_of_find?_eq_some ht)
        exact absurd (by rw [fault?, hempty, hnumber]; rfl) (h t.text)
  · intro hnumber value hfault
    rw [fault?, hnumber] at hfault
    simp only [Option.or_eq_some_iff, Option.none_or] at hfault
    rcases hfault with h | ⟨_, h | ⟨_, h | ⟨_, h | ⟨_, h⟩⟩⟩⟩
    · cases eq_of_emptyFault? h
    · rcases eq_of_edgeFault? h with heq | heq <;> cases heq
    · cases eq_of_operatorFault? h
    · rcases eq_of_parenthesisFault? h with heq | heq <;> cases heq
    · obtain ⟨_, _, hpair⟩ := List.exists_of_findSome?_eq_some h
      rcases eq_of_pairFault? hpair with heq | heq | ⟨_, _, heq⟩ <;> cases heq

theorem numberFault?_ofText_eq_none_iff (b : Bindings) (text : String) :
    numberFault? (ofText b text) = none ↔
      ∀ t ∈ ofText .empty text, t.isNumber = true → Holds b t := by
  have hmap : ofText b text = (ofText .empty text).map (Token.bound b) :=
    Token.ofLexemes_eq_map_bound b .start [] _
  rw [numberFault?_eq_none_iff, hmap, List.forall_mem_map]
  refine forall₂_congr fun t _ => ?_
  rw [Token.isNumber_bound]
  exact imp_congr_right fun h => (holds_iff h).symm

end Structure

/-- The text of a number is a literal just when the number is finite, and then it is an
optional `-`, digits and, if there is a point, digits behind it.  So a text is accepted as
far as its number tokens go when each is a literal or a letter bound to a finite number. -/
theorem Binary64.isLiteral_toText_iff (x : Binary64) :
    (Decimal.isLiteral x.toText.toList = true ↔ x.isFinite = true) ∧
      (x.isFinite = true → ∃ whole fraction,
        x.toText.toList = (if x.negative then ['-'] else []) ++ (whole ++ fraction) ∧
          whole ≠ [] ∧ (∀ c ∈ whole, c.isDigit = true) ∧
          Decimal.Fraction fraction ∧ fraction ≠ ['.']) ∧
      (∀ b c, c.isAlpha = true → Bindings.get? b c = some x →
        (Structure.Holds b (Token.number (.singleton c)) ↔ x.isFinite = true)) ∧
      ∀ b text, (∀ value, Structure.fault? (Token.ofText b text) ≠ some (.notANumber value)) ↔
        ∀ t ∈ Token.ofText .empty text, t.isNumber = true → Structure.Holds b t := by
  refine ⟨by rw [isLiteral_toText], ?_, fun b c => Structure.holds_letter_iff, ?_⟩
  · intro hfinite
    obtain ⟨whole, fraction, hpositional, hshape⟩ :=
      Decimal.exists_positional (Decimal.shortest .up x.magnitude)
    refine ⟨whole, fraction, ?_, hshape⟩
    rw [toText, String.toList_ofList, toChars_of_isFinite hfinite, hpositional]
  · intro b text
    rw [Structure.forall_fault?_ne_notANumber_iff]
    exact Structure.numberFault?_ofText_eq_none_iff b text

end Stepwise
