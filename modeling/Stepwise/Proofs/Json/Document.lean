import Stepwise.Proofs.Json.Members
import Stepwise.Proofs.Json.Numeral
import Stepwise.Proofs.Json.Spelling

/-!
# Documents

A document is an object of numbers: its members in their order, each key in one of the ways
to write it, each number as one that the reader takes by itself, and white space anywhere
between the parts.  Keys may come more than once.

Main statements: members with any keys can be written if their numbers can
(`exists_writes`), and a document is read as the members it is written for, in their order
and with those that repeat a key (`readDocument_of_writes`).
-/

namespace Stepwise.Json

/-- White space between the parts of a document. -/
def Gap (cs : List Char) : Prop := ∀ c ∈ cs, c ∈ [' ', '\t', '\n', '\r']

/-- The ways to write a member. -/
inductive WritesMember : Member → List Char → Prop
  | intro {key spelled gap gap' text : List Char} {x : Binary64} : Spells key spelled → Gap gap →
      Gap gap' → number? text = some x →
      WritesMember (key, x) ('"' :: (spelled ++ '"' :: (gap ++ ':' :: (gap' ++ text))))

/-- The ways to write members, one at least, with commas between them. -/
inductive WritesMembers : List Member → List Char → Prop
  | last {m : Member} {cs gap : List Char} : WritesMember m cs → Gap gap →
      WritesMembers [m] (cs ++ gap)
  | more {m : Member} {members : List Member} {cs gap gap' more : List Char} :
      WritesMember m cs → Gap gap → Gap gap' → WritesMembers members more →
      WritesMembers (m :: members) (cs ++ (gap ++ ',' :: (gap' ++ more)))

/-- The ways to write an object of numbers. -/
inductive Writes : List Member → List Char → Prop
  | empty {gap : List Char} : Gap gap → Writes [] ('{' :: (gap ++ ['}']))
  | members {members : List Member} {gap cs : List Char} : Gap gap → WritesMembers members cs →
      Writes members ('{' :: (gap ++ (cs ++ ['}'])))

variable {c : Char} {gap cs rest : List Char} {m : Member} {members : List Member}

/-! ## White space -/

theorem isBlank_of_mem (h : c ∈ [' ', '\t', '\n', '\r']) : isBlank c = true := by
  simp only [List.mem_cons, List.not_mem_nil, or_false] at h
  rcases h with rfl | rfl | rfl | rfl <;> rfl

theorem skipBlanks_gap (h : Gap gap) (rest : List Char) :
    skipBlanks (gap ++ rest) = skipBlanks rest :=
  List.dropWhile_append_of_pos fun c hc => isBlank_of_mem (h c hc)

theorem skipBlanks_gap_cons (h : Gap gap) (hc : isBlank c = false) (rest : List Char) :
    skipBlanks (gap ++ c :: rest) = c :: rest := by
  rw [skipBlanks_gap h, skipBlanks_cons hc]

theorem ends_gap (h : Gap gap) (hc : c = ',' ∨ c = '}') (rest : List Char) :
    Ends (gap ++ c :: rest) := by
  have hends : ∀ d ∈ [' ', '\t', '\n', '\r', ',', '}'],
      d.isDigit = false ∧ d ≠ '.' ∧ d ≠ 'e' ∧ d ≠ 'E' := by simp
  cases gap with
  | nil =>
      rintro d ⟨⟩
      rcases hc with rfl | rfl
      · exact hends _ (by decide)
      · exact hends _ (by decide)
  | cons e gap =>
      rintro d ⟨⟩
      exact hends e (List.mem_append_left [',', '}'] (h e List.mem_cons_self))

/-! ## Members -/

theorem exists_numeral_of_number? {text : List Char} {x : Binary64} (h : number? text = some x) :
    ∃ n, readNumber text = .ok (n, []) ∧ n.value = x := by
  unfold number? at h
  split at h
  · next n hread => exact ⟨n, hread, Option.some.inj h⟩
  · cases h

theorem readValue_gap {text : List Char} {n : Numeral} (hgap : Gap gap)
    (h : readNumber text = .ok (n, [])) (hrest : Ends rest) :
    readValue (gap ++ (text ++ rest)) = .ok (n, rest) := by
  have hskip : readValue (gap ++ (text ++ rest)) = readValue (text ++ rest) := by
    rw [readValue, skipBlanks_gap hgap, readValue]
  have hread := readNumber_append_of_ok h hrest
  obtain ⟨c, more, rfl, hc⟩ := exists_cons_of_readNumber h
  exact hskip.trans ((readValue_cons hc (more ++ rest)).trans hread)

theorem WritesMember.readMember_append (h : WritesMember m cs) :
    ∃ behind, cs = '"' :: behind ∧
      ∀ rest, Ends rest → readMember (behind ++ rest) = .ok (m, rest) := by
  cases h with
  | @intro key spelled gap gap' text x hkey hgap hgap' htext =>
      refine ⟨_, rfl, ?_⟩
      intro rest hrest
      obtain ⟨n, hread, rfl⟩ := exists_numeral_of_number? htext
      have hsplit : spelled ++ '"' :: (gap ++ ':' :: (gap' ++ text)) ++ rest =
          spelled ++ '"' :: (gap ++ ':' :: (gap' ++ (text ++ rest))) := by
        simp only [List.append_assoc, List.cons_append]
      rw [hsplit, readMember, readText_of_spells hkey]
      simp only [skipBlanks_gap_cons hgap (show isBlank ':' = false from rfl),
        readValue_gap hgap' hread hrest]
      rfl

/-- Members are read up to the brace behind them.  By induction along the members: each one
is read by itself, and the comma behind it leads to the quote of the next. -/
theorem WritesMembers.readMembers_append (h : WritesMembers members cs) (rest : List Char) :
    ∃ behind, cs = '"' :: behind ∧ readMembers (behind ++ '}' :: rest) = .ok (members, rest) := by
  induction h with
  | @last m cs gap hm hgap =>
      obtain ⟨behind, rfl, hread⟩ := hm.readMember_append
      refine ⟨behind ++ gap, rfl, ?_⟩
      have hmember := hread (gap ++ '}' :: rest) (ends_gap hgap (.inr rfl) rest)
      rw [List.append_assoc]
      exact readMembers_of_last hmember (skipBlanks_gap_cons hgap rfl rest)
  | @more m members cs gap gap' more hm hgap hgap' _ ih =>
      obtain ⟨behind, rfl, hread⟩ := hm.readMember_append
      obtain ⟨next, rfl, hnext⟩ := ih
      refine ⟨behind ++ (gap ++ ',' :: (gap' ++ '"' :: next)), rfl, ?_⟩
      let afterComma := gap' ++ '"' :: (next ++ '}' :: rest)
      have hsplit : behind ++ (gap ++ ',' :: (gap' ++ '"' :: next)) ++ '}' :: rest =
          behind ++ (gap ++ ',' :: afterComma) := by
        simp only [afterComma, List.append_assoc, List.cons_append]
      have hmember := hread (gap ++ ',' :: afterComma) (ends_gap hgap (.inl rfl) afterComma)
      rw [hsplit]
      exact readMembers_of_more hmember (skipBlanks_gap_cons hgap rfl afterComma)
        (skipBlanks_gap_cons hgap' rfl _) hnext

/-! ## Documents -/

theorem exists_writesMembers {members : List Member} (hne : members ≠ [])
    (h : ∀ m ∈ members, ∃ text, number? text = some m.2) : ∃ cs, WritesMembers members cs := by
  have hnone : Gap [] := nofun
  induction members with
  | nil => exact absurd rfl hne
  | cons m members ih =>
      obtain ⟨⟨text, htext⟩, hmembers⟩ := List.forall_mem_cons.mp h
      obtain ⟨spelled, hspelled⟩ := exists_spells m.1
      have hmember : WritesMember m _ := .intro hspelled hnone hnone htext
      cases members with
      | nil => exact ⟨_, .last hmember hnone⟩
      | cons m' members =>
          obtain ⟨cs, hcs⟩ := ih (List.cons_ne_nil m' members) hmembers
          exact ⟨_, .more hmember hnone hnone hcs⟩

/-- Members can be written whatever their keys are, as long as their numbers can. -/
theorem exists_writes (h : ∀ m ∈ members, ∃ text, number? text = some m.2) :
    ∃ cs, Writes members cs := by
  have hnone : Gap [] := nofun
  by_cases hne : members = []
  · subst hne
    exact ⟨_, .empty hnone⟩
  · obtain ⟨cs, hcs⟩ := exists_writesMembers hne h
    exact ⟨_, .members hnone hcs⟩

theorem readDocument_of_writes (h : Writes members cs) : readDocument cs = .ok members := by
  cases h with
  | @empty gap hgap =>
      rw [readDocument, skipBlanks_cons rfl]
      simp only [readObject, skipBlanks_gap_cons hgap (show isBlank '}' = false from rfl)]
      rfl
  | @members _ gap cs hgap hmembers =>
      obtain ⟨behind, rfl, hread⟩ := hmembers.readMembers_append []
      have hobject : readObject (gap ++ '"' :: (behind ++ ['}'])) = .ok (members, []) := by
        simp only [readObject, skipBlanks_gap_cons hgap (show isBlank '"' = false from rfl), hread]
      rw [readDocument, skipBlanks_cons rfl]
      simp only [List.cons_append, hobject]
      rfl

theorem Writes.exists_inner (h : Writes members cs) : ∃ inner, cs = '{' :: (inner ++ ['}']) := by
  cases h with
  | @empty gap _ => exact ⟨gap, rfl⟩
  | @members _ gap cs _ _ => exact ⟨gap ++ cs, by rw [List.append_assoc]⟩

end Stepwise.Json
