import Stepwise.Json.ReadMembers
import Stepwise.Proofs.Json.PlainNumber

/-!
# Reading members

The members of an object are read from behind the opening quote of the first key.  What
follows a member decides whether it is the last one (`readMembers_of_last`,
`readMembers_of_more`), and a fault in a member is the fault of the object
(`readMembers_of_error`).

Main statement: the document `{"a":n}` is read as its one member if `n` is read as a
number, and is at fault where that number is (`readDocument_single`).
-/

namespace Stepwise.Json

variable {negative : Bool} {d : Decimal} {cs : List Char}

/-! ## Values -/

theorem Plain.exists_cons (h : Plain negative d cs) :
    ∃ c more, cs = c :: more ∧ (c = '-' ∨ c.isDigit = true) := by
  cases h.literal with
  | positive h =>
      obtain ⟨c, more, rfl, hc⟩ := h.exists_cons
      exact ⟨c, more, rfl, .inr hc⟩
  | negative _ => exact ⟨'-', _, rfl, .inl rfl⟩

theorem isBlank_eq_false_of_isDigit {c : Char} (h : c.isDigit = true) : isBlank c = false := by
  refine Bool.eq_false_iff.mpr ?_
  intro hblank
  simp only [isBlank, Bool.or_eq_true, beq_iff_eq] at hblank
  rcases hblank with ((rfl | rfl) | rfl) | rfl <;> exact absurd h (by decide)

theorem skipBlanks_cons {c : Char} (h : isBlank c = false) (rest : List Char) :
    skipBlanks (c :: rest) = c :: rest := by
  rw [skipBlanks, List.dropWhile_cons, if_neg (by simp [h])]

theorem readValue_cons {c : Char} (hc : c = '-' ∨ c.isDigit = true) (rest : List Char) :
    readValue (c :: rest) = readNumber (c :: rest) := by
  have hblank : isBlank c = false := by
    rcases hc with rfl | hdigit
    · rfl
    · exact isBlank_eq_false_of_isDigit hdigit
  rw [readValue, skipBlanks_cons hblank]
  exact if_pos (by simpa using hc)

theorem readValue_append (h : Plain negative d cs) (rest : List Char) :
    readValue (cs ++ rest) = readNumber (cs ++ rest) := by
  obtain ⟨c, more, rfl, hc⟩ := h.exists_cons
  exact readValue_cons hc (more ++ rest)

theorem readText_letter (rest : List Char) : readText ('a' :: '"' :: rest) = .ok (['a'], rest) := by
  rw [readText, readText]
  · rfl
  · decide
  · decide

/-! ## Members -/

theorem readMembers_of_error {fault : Fault} (h : readMember cs = .error fault) :
    readMembers cs = .error fault := by
  rw [readMembers]
  split
  · next heq =>
    cases h.symm.trans heq
    rfl
  · next heq => cases h.symm.trans heq

theorem readMembers_of_last {m : Member} {behind rest : List Char}
    (h : readMember cs = .ok (m, behind)) (hbrace : skipBlanks behind = '}' :: rest) :
    readMembers cs = .ok ([m], rest) := by
  rw [readMembers]
  split
  · next heq => cases h.symm.trans heq
  · next heq =>
    cases h.symm.trans heq
    split
    · next heq =>
      cases hbrace.symm.trans heq
      rfl
    · next heq => cases hbrace.symm.trans heq
    · next heq => cases hbrace.symm.trans heq
    · next hnot _ _ => exact absurd hbrace (hnot _)

theorem readMembers_of_more {m : Member} {members : List Member}
    {behind afterComma next rest : List Char} (h : readMember cs = .ok (m, behind))
    (hcomma : skipBlanks behind = ',' :: afterComma) (hquote : skipBlanks afterComma = '"' :: next)
    (hmore : readMembers next = .ok (members, rest)) :
    readMembers cs = .ok (m :: members, rest) := by
  rw [readMembers]
  split
  · next heq => cases h.symm.trans heq
  · next heq =>
    cases h.symm.trans heq
    split
    · next heq => cases hcomma.symm.trans heq
    · next heq =>
      cases hcomma.symm.trans heq
      split
      · next heq =>
        cases hquote.symm.trans heq
        rw [hmore]
      · next heq => cases hquote.symm.trans heq
      · next heq => cases hquote.symm.trans heq
      · next hnot _ _ => exact absurd hquote (hnot _)
    · next heq => cases hcomma.symm.trans heq
    · next hnot _ => exact absurd hcomma (hnot _)

variable {numeral? : Option Numeral}

theorem readMember_letter (h : readValue (cs ++ ['}']) = reading numeral? ['}']) :
    readMember ('a' :: '"' :: ':' :: (cs ++ ['}'])) =
      (reading numeral? ['}']).map fun (m, rest) => ((['a'], m.value), rest) := by
  rw [readMember, readText_letter]
  simp only [skipBlanks_cons (show isBlank ':' = false from rfl), h]

/-- The document that binds `a` to the number of a text. -/
def single (cs : List Char) : List Char := '{' :: '"' :: 'a' :: '"' :: ':' :: (cs ++ ['}'])

/-- The one member is read if its number is in range. -/
theorem readDocument_single (h : readValue (cs ++ ['}']) = reading numeral? ['}']) :
    readDocument (single cs) = match numeral? with
      | some m => .ok [(['a'], m.value)]
      | none => .error (.here .numberOutOfRange ['}']) := by
  have hmember := readMember_letter h
  rw [single, readDocument, skipBlanks_cons rfl]
  simp only [readObject, skipBlanks_cons (show isBlank '"' = false from rfl)]
  cases numeral? with
  | none => rw [readMembers_of_error hmember]
  | some m =>
      rw [readMembers_of_last hmember (skipBlanks_cons rfl [])]
      rfl

end Stepwise.Json
