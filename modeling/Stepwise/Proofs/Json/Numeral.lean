import Stepwise.Proofs.Json.PlainNumber

/-!
# A number in front of something else

A number that is read as a whole is read in the same way in front of whatever does not go
on with it (`readNumber_append_of_ok`).  The reader never looks back, and it looks ahead by
one character only: past the digits, past the point, and at what may begin an exponent.  So
each of its parts is taken by itself, and the only place to look at is where the text of
the number ends.
-/

namespace Stepwise.Json

variable {m : Numeral} {n whole : Scaled} {isWhole negative : Bool} {cs left rest : List Char}

/-! ## Digits -/

theorem Ends.takeWhile_append (h : Ends rest) (cs : List Char) :
    (cs ++ rest).takeWhile Char.isDigit = cs.takeWhile Char.isDigit := by
  induction cs with
  | nil => exact h.takeWhile
  | cons c cs ih => rw [List.cons_append, List.takeWhile_cons, List.takeWhile_cons, ih]

theorem Ends.dropWhile_append (h : Ends rest) (cs : List Char) :
    (cs ++ rest).dropWhile Char.isDigit = cs.dropWhile Char.isDigit ++ rest := by
  induction cs with
  | nil => exact h.dropWhile
  | cons c cs ih =>
      rw [List.cons_append, List.dropWhile_cons, List.dropWhile_cons, ih]
      split <;> rfl

/-! ## The parts of a number -/

theorem readWhole_append_of_ok (h : readWhole cs = .ok (n, left)) (hrest : Ends rest) :
    readWhole (cs ++ rest) = .ok (n, left ++ rest) := by
  unfold readWhole at h ⊢
  rw [hrest.takeWhile_append, hrest.dropWhile_append]
  split at h
  · cases h
  · cases h
  · cases h
    rfl

theorem readFraction_append_of_ok (h : readFraction whole cs = .ok (n, left))
    (hrest : Ends rest) : readFraction whole (cs ++ rest) = .ok (n, left ++ rest) := by
  cases cs with
  | nil =>
      cases h
      cases rest with
      | nil => rfl
      | cons c rest =>
          have hpoint : c ≠ '.' := (hrest c rfl).2.1
          simp [readFraction, hpoint]
  | cons c cs =>
      rw [List.cons_append]
      by_cases hpoint : c = '.'
      · subst hpoint
        unfold readFraction at h ⊢
        simp only at h ⊢
        rw [hrest.takeWhile_append, hrest.dropWhile_append]
        split at h
        · cases h
        · cases h
          rfl
      · have hnone : ∀ cs, readFraction whole (c :: cs) = .ok (whole, c :: cs) := by
          intro cs
          unfold readFraction
          split
          · next heq => exact absurd (List.cons.inj heq).1 hpoint
          · rfl
        rw [hnone] at h ⊢
        cases h
        rfl

theorem splitSign_append (hne : cs ≠ []) (rest : List Char) :
    Decimal.splitSign (cs ++ rest) =
      ((Decimal.splitSign cs).1, (Decimal.splitSign cs).2 ++ rest) := by
  match cs with
  | [] => exact absurd rfl hne
  | c :: cs =>
      by_cases hminus : c = '-'
      · subst hminus
        rfl
      · by_cases hplus : c = '+'
        · subst hplus
          rfl
        · simp [Decimal.splitSign, hminus, hplus]

theorem readExponent_append_of_ok (h : readExponent n cs = .ok (whole, left))
    (hrest : Ends rest) : readExponent n (cs ++ rest) = .ok (whole, left ++ rest) := by
  cases cs with
  | nil =>
      cases h
      exact readExponent_eq n hrest
  | cons mark cs =>
      rw [List.cons_append]
      unfold readExponent at h ⊢
      simp only at h ⊢
      split at h
      · next hmark =>
        have hne : cs ≠ [] := by
          rintro rfl
          cases h
        rw [if_pos hmark, splitSign_append hne]
        simp only
        rw [hrest.takeWhile_append, hrest.dropWhile_append]
        split at h
        · cases h
        · split at h
          · cases h
            rfl
          · split at h
            · cases h
            · next hzero =>
              cases h
              exact if_neg hzero
      · next hmark =>
        rw [if_neg hmark]
        cases h
        rfl

/-! ## A number -/

theorem readScaled_append_of_ok (h : readScaled cs = .ok ((n, isWhole), left))
    (hrest : Ends rest) : readScaled (cs ++ rest) = .ok ((n, isWhole), left ++ rest) := by
  unfold readScaled at h ⊢
  split at h
  · cases h
  · next hwhole =>
    rw [readWhole_append_of_ok hwhole hrest]
    split at h
    · cases h
    · next hfraction =>
      simp only [readFraction_append_of_ok hfraction hrest]
      split at h
      · cases h
      · next hexponent =>
        simp only [readExponent_append_of_ok hexponent hrest]
        cases h
        simp only [List.length_append, Nat.add_right_cancel_iff, BEq.beq]

theorem readUnsigned_append_of_ok (h : readUnsigned negative cs = .ok (m, left))
    (hrest : Ends rest) : readUnsigned negative (cs ++ rest) = .ok (m, left ++ rest) := by
  cases hscaled : readScaled cs with
  | error fault =>
      rw [readUnsigned, hscaled] at h
      cases h
  | ok scaled =>
      obtain ⟨⟨n, isWhole⟩, behind⟩ := scaled
      rw [readUnsigned_eq hscaled] at h
      rw [readUnsigned_eq (readScaled_append_of_ok hscaled hrest)]
      cases hnumeral : n.numeral? negative isWhole with
      | none =>
          rw [hnumeral] at h
          cases h
      | some m =>
          rw [hnumeral] at h
          cases h
          rfl

theorem exists_cons_of_readUnsigned (h : readUnsigned negative cs = .ok (m, left)) :
    ∃ c more, cs = c :: more ∧ c.isDigit = true := by
  cases cs with
  | nil => cases h
  | cons c cs =>
      refine ⟨c, cs, rfl, ?_⟩
      by_contra hdigit
      rw [readUnsigned, readScaled, readWhole, List.takeWhile_cons, if_neg hdigit] at h
      cases h

theorem exists_cons_of_readNumber (h : readNumber cs = .ok (m, left)) :
    ∃ c more, cs = c :: more ∧ (c = '-' ∨ c.isDigit = true) := by
  unfold readNumber at h
  split at h
  · next cs => exact ⟨'-', cs, rfl, .inl rfl⟩
  · obtain ⟨c, more, rfl, hc⟩ := exists_cons_of_readUnsigned h
    exact ⟨c, more, rfl, .inr hc⟩

/-- A number is read in the same way in front of what does not go on with it. -/
theorem readNumber_append_of_ok (h : readNumber cs = .ok (m, left)) (hrest : Ends rest) :
    readNumber (cs ++ rest) = .ok (m, left ++ rest) := by
  by_cases hminus : ∃ more, cs = '-' :: more
  · obtain ⟨more, rfl⟩ := hminus
    exact readUnsigned_append_of_ok h hrest
  · obtain ⟨c, more, rfl, hc⟩ := exists_cons_of_readNumber h
    have hdigit : c.isDigit = true := by
      rcases hc with rfl | hdigit
      · exact absurd ⟨more, rfl⟩ hminus
      · exact hdigit
    rw [readNumber_of_isDigit hdigit] at h
    rw [List.cons_append, readNumber_of_isDigit hdigit, ← List.cons_append]
    exact readUnsigned_append_of_ok h hrest

end Stepwise.Json
