import Mathlib.Data.List.Induction
import Stepwise.Bindings.OfJson
import Stepwise.Proofs.Json.Document
import Stepwise.Proofs.Text.Trim

/-!
# The last value of each letter

A key may come more than once in a document, spelled in different ways, and the value that
counts is the one that comes last.  Reading keeps it for the keys that are letters and for
nothing else.

The last values of all keys make a map.  Whatever order its entries are listed in, the
letters among them are bound to the same numbers as by the members in theirs: distinct keys
are distinct letters, so no two entries meet.

Main statement: a document is read as the bindings of its last values, and so is every
listing of them (`exists_ofJson_of_writes`).
-/

namespace Stepwise.Bindings

open Json (Member Writes)

/-- The last of the members with this key has this value. -/
def LastValue (members : List Member) (key : List Char) (x : Binary64) : Prop :=
  ∃ before after, members = before ++ (key, x) :: after ∧ ∀ m ∈ after, m.1 ≠ key

/-- The entries are the last values of all keys that the members have, in some order and
each of them once. -/
structure Lists (members entries : List Member) : Prop where
  nodup : (entries.map Prod.fst).Nodup
  mem_iff : ∀ key x, (key, x) ∈ entries ↔ LastValue members key x

variable {members entries : List Member} {m : Member} {key : List Char} {x y : Binary64}
  {c : Char} {b : Bindings}

/-! ## Last values -/

theorem not_lastValue_nil : ¬LastValue [] key x := by
  rintro ⟨before, after, h, _⟩
  exact List.append_ne_nil_of_right_ne_nil before (List.cons_ne_nil _ after) h.symm

theorem LastValue.mem (h : LastValue members key x) : (key, x) ∈ members := by
  obtain ⟨before, after, rfl, _⟩ := h
  exact List.mem_append_right before List.mem_cons_self

theorem lastValue_concat_iff :
    LastValue (members ++ [m]) key x ↔ m = (key, x) ∨ m.1 ≠ key ∧ LastValue members key x := by
  constructor
  · rintro ⟨before, after, h, hafter⟩
    cases after using List.reverseRecOn with
    | nil => exact .inl (List.head_eq_of_cons_eq (List.append_inj' h rfl).2)
    | append_singleton after last =>
        rw [← List.cons_append, ← List.append_assoc] at h
        obtain ⟨hmembers, hlast⟩ := List.append_inj' h rfl
        obtain ⟨hbehind, hne⟩ := List.forall_mem_append.mp hafter
        rw [List.head_eq_of_cons_eq hlast]
        exact .inr ⟨hne last List.mem_cons_self, before, after, hmembers, hbehind⟩
  · rintro (rfl | ⟨hne, before, after, rfl, hafter⟩)
    · exact ⟨members, [], rfl, nofun⟩
    · refine ⟨before, after ++ [m], List.append_assoc .., ?_⟩
      exact List.forall_mem_append.mpr ⟨hafter, List.forall_mem_singleton.mpr hne⟩

theorem lastValue_iff_mem (h : (entries.map Prod.fst).Nodup) :
    LastValue entries key x ↔ (key, x) ∈ entries := by
  refine ⟨LastValue.mem, fun hmem => ?_⟩
  obtain ⟨before, after, rfl⟩ := List.append_of_mem hmem
  refine ⟨before, after, rfl, ?_⟩
  rintro m hm rfl
  rw [List.map_append, List.map_cons] at h
  have hnot := (List.nodup_cons.mp (List.nodup_append.mp h).2.1).1
  exact hnot (List.mem_map.mpr ⟨m, hm, rfl⟩)

/-! ## Listings -/

/-- Listing the last values leaves them as they are. -/
theorem Lists.lastValue_iff (h : Lists members entries) :
    LastValue entries key x ↔ LastValue members key x :=
  (lastValue_iff_mem h.nodup).trans (h.mem_iff key x)

/-- The last values can be listed.  By induction over the members from the end: a further
member takes the place of the entry with its key. -/
theorem exists_lists (members : List Member) : ∃ entries, Lists members entries := by
  induction members using List.reverseRecOn with
  | nil => exact ⟨[], List.nodup_nil, fun key x => ⟨nofun, fun h => (not_lastValue_nil h).elim⟩⟩
  | append_singleton members m ih =>
      obtain ⟨entries, hnodup, hmem⟩ := ih
      refine ⟨m :: entries.filter (·.1 ≠ m.1), ?_, fun key x => ?_⟩
      · refine List.nodup_cons.mpr ⟨?_, hnodup.sublist (List.filter_sublist.map _)⟩
        simp
      · rw [lastValue_concat_iff, ← hmem key x, List.mem_cons, List.mem_filter, decide_eq_true_iff,
          and_comm, eq_comm, ne_comm]

/-! ## Bindings -/

theorem letter?_eq_some_iff : letter? key = some c ↔ key = [c] ∧ c.isAlpha = true := by
  unfold letter?
  split
  · next d =>
      split
      · next hd =>
          rw [Option.some.injEq, List.cons.injEq, and_iff_left rfl]
          exact ⟨fun h => ⟨h, h ▸ hd⟩, And.left⟩
      · next hd => exact ⟨nofun, fun ⟨h, hc⟩ => (hd (List.head_eq_of_cons_eq h ▸ hc)).elim⟩
  · next hsingle => exact ⟨nofun, fun ⟨h, _⟩ => (hsingle c h).elim⟩

theorem get?_insertMember (b : Bindings) (m : Member) (c : Char) :
    (b.insertMember m).get? c = if letter? m.1 = some c then some m.2 else b.get? c := by
  unfold insertMember
  split
  · next name hname => simp only [get?_insert, hname, Option.some.injEq, eq_comm]
  · next hnone => rw [hnone, if_neg nofun]

theorem ofMembers_concat (members : List Member) (m : Member) :
    ofMembers (members ++ [m]) = (ofMembers members).insertMember m := by
  rw [ofMembers, List.foldl_append]
  rfl

/-- The letters are bound to the last values of their keys.  By induction over the members
from the end, each of which replaces what is bound to its own letter. -/
theorem get?_ofMembers_iff :
    (ofMembers members).get? c = some x ↔ c.isAlpha = true ∧ LastValue members [c] x := by
  induction members using List.reverseRecOn with
  | nil => exact ⟨nofun, fun h => (not_lastValue_nil h.2).elim⟩
  | append_singleton members m ih =>
      obtain ⟨key, y⟩ := m
      rw [ofMembers_concat, get?_insertMember]
      split
      · next hletter =>
          obtain ⟨rfl, hc⟩ := letter?_eq_some_iff.mp hletter
          simp [lastValue_concat_iff, hc]
      · next hletter =>
          -- a character that is no letter is not bound, even where it is the key
          rw [ih]
          refine and_congr_right fun hc => ?_
          have hkey : key ≠ [c] := fun h => hletter (letter?_eq_some_iff.mpr ⟨h, hc⟩)
          simp [lastValue_concat_iff, hkey]

theorem Lists.get?_ofMembers (h : Lists members entries) (c : Char) :
    (ofMembers entries).get? c = (ofMembers members).get? c := by
  refine Option.ext fun x => ?_
  rw [get?_ofMembers_iff, get?_ofMembers_iff, h.lastValue_iff]

/-! ## Reading -/

theorem trim_around_writes {doc front back : List Char} (h : Writes members doc)
    (hfront : ∀ c ∈ front, c ∈ Text.whiteSpace)
    (hback : ∀ c ∈ back, c ∈ Text.whiteSpace) :
    Text.trim (front ++ (doc ++ back)) = doc := by
  obtain ⟨inner, rfl⟩ := h.exists_inner
  exact Text.trim_around hfront hback (by decide) (by decide)

/-- A document with white space around it is read, and every letter is bound to the last
value of the key that consists of it.  Nothing else is bound, and the order in which the
last values are gathered makes no difference. -/
theorem exists_ofJson_of_writes {doc front back : List Char} (h : Writes members doc)
    (hfront : ∀ c ∈ front, c ∈ Text.whiteSpace)
    (hback : ∀ c ∈ back, c ∈ Text.whiteSpace) :
    ∃ b, ofJson (front ++ (doc ++ back)) = .ok b ∧
      (∀ c x, b.get? c = some x ↔ c.isAlpha = true ∧ LastValue members [c] x) ∧
      (∃ entries, Lists members entries) ∧
      ∀ entries, Lists members entries → ∀ c, (ofMembers entries).get? c = b.get? c := by
  refine ⟨ofMembers members, ?_, fun c x => get?_ofMembers_iff, exists_lists members,
    fun entries hlists => hlists.get?_ofMembers⟩
  simp only [ofJson, trim_around_writes h hfront hback, Json.readDocument_of_writes h]

/-- The letter `a` is bound twice, the first time by its code unit and with a longer key in
between. -/
theorem exists_ofJson_of_writes_twice :
    ∃ b, ofJson "\u00a0\x7b\"\\u0061\" : 1 , \"ab\":2,\"a\":-3 \x7d\n".toList = .ok b ∧
      b.get? 'a' = some (.ofText "-3") ∧ b.get? 'b' = none := by
  have hunit : Json.CodeUnit ['0', '0', '6', '1'] 'a'.toNat :=
    .intro (p := 0) (q := 0) (r := 6) (s := 1) ⟨by decide, .inl rfl⟩ ⟨by decide, .inl rfl⟩
      ⟨by decide, .inl rfl⟩ ⟨by decide, .inl rfl⟩
  have ha : Json.SpellsChar 'a' ['a'] := .itself (by decide) (by decide) (by decide)
  have hb : Json.SpellsChar 'b' ['b'] := .itself (by decide) (by decide) (by decide)
  have hnone : Json.Gap [] := nofun
  have hblank : Json.Gap [' '] := List.forall_mem_singleton.mpr (by decide)
  have hfirst : Json.WritesMember (['a'], .ofText "1") "\"\\u0061\" : 1".toList :=
    .intro (.cons (.unit hunit) .nil) hblank hblank (by decide +kernel)
  have hsecond : Json.WritesMember (['a', 'b'], .ofText "2") "\"ab\":2".toList :=
    .intro (.cons ha (.cons hb .nil)) hnone hnone (by decide +kernel)
  have hthird : Json.WritesMember (['a'], .ofText "-3") "\"a\":-3".toList :=
    .intro (.cons ha .nil) hnone hnone (by decide +kernel)
  have hwrites : Writes _ _ := .members hnone
    (.more hfirst hblank hblank (.more hsecond hnone hnone (.last hthird hblank)))
  have hfront : ∀ c ∈ ['\u00a0'], c ∈ Text.whiteSpace :=
    List.forall_mem_singleton.mpr (by decide)
  have hback : ∀ c ∈ ['\n'], c ∈ Text.whiteSpace :=
    List.forall_mem_singleton.mpr (by decide)
  obtain ⟨b, hread, hget, -, -⟩ := exists_ofJson_of_writes hwrites hfront hback
  refine ⟨b, hread, (hget 'a' _).mpr ⟨rfl, [_, _], [], rfl, nofun⟩, ?_⟩
  refine Option.eq_none_iff_forall_ne_some.mpr fun x hx => ?_
  have hmem := ((hget 'b' x).mp hx).2.mem
  simp at hmem

end Stepwise.Bindings
