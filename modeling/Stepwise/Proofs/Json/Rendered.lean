import Stepwise.Json.Basic
import Stepwise.Proofs.Decimal.Minimal
import Stepwise.Proofs.Json.Reader

/-!
# What is written is JSON

The text of a value is a JSON text, of the tree that `Json.tree` says, and it has no white space
and no control character.  The digits of a number can be laid out in two ways, with an exponent
or without, and where they are it is one decimal number with the same value as the shortest one
(`showsUnsigned_ofDecimal`), so what a reader rounds it to is the number that was written
(`nearest_ofFinite`).

Main statements: `isText_render`, with the reader `read?_render`, and `printable_render`.
-/

namespace Stepwise

namespace Decimal

variable {d e : Decimal} {n : Nat}

theorem nearest_eq_of_toRat_eq (negative : Bool) (h : d.toRat = e.toRat) :
    d.nearest negative = e.nearest negative := by
  have hd := rounds_nearest negative d
  rw [h] at hd
  exact hd.unique (rounds_nearest negative e)
    ((negative_nearest negative d).trans (negative_nearest negative e).symm)

theorem exists_toDigits_eq (hn : n ≠ 0) :
    ∃ first more, Nat.toDigits 10 n = first :: more ∧ first ≠ '0' := by
  have hne : Nat.toDigits 10 n ≠ [] := Nat.toDigits_ne_nil
  obtain ⟨first, more, hdigits⟩ := List.exists_cons_of_ne_nil hne
  refine ⟨first, more, hdigits, ?_⟩
  rintro rfl
  have hall : ∀ c ∈ Nat.toDigits 10 n, c.isDigit = true := isDigit_of_mem_toDigits
  have hvalue : Nat.ofDigitChars 10 (Nat.toDigits 10 n) 0 = n := Nat.ofDigitChars_ten_toDigits
  rw [hdigits] at hall hvalue
  -- without the zero the number would have one digit less
  have hlt := ofDigitChars_lt (List.forall_mem_cons.mp hall).2 0
  rw [Nat.zero_add, Nat.one_mul, ← ofDigitChars_zeros_append 1 more] at hlt
  change Nat.ofDigitChars 10 ('0' :: more) 0 < _ at hlt
  rw [hvalue] at hlt
  rcases Nat.eq_zero_or_pos more.length with hzero | hpos
  · rw [hzero, Nat.pow_zero] at hlt
    omega
  · have hlength := (Nat.length_toDigits_le_iff (by decide) hpos).mpr hlt
    rw [hdigits, List.length_cons] at hlength
    omega

end Decimal

namespace Json

open Decimal (Denotes Scale Sign tenTo withPlaces)

variable {d : Decimal} {cs whole fraction : List Char} {n k : Nat} {negative : Bool}

/-! ## Numbers -/

theorem whole_toDigits (n : Nat) : Whole (Nat.toDigits 10 n) := by
  by_cases hn : n = 0
  · subst hn
    exact .zero
  · obtain ⟨first, more, hdigits, hfirst⟩ := Decimal.exists_toDigits_eq hn
    have hall : ∀ c ∈ Nat.toDigits 10 n, c.isDigit = true := Decimal.isDigit_of_mem_toDigits
    rw [hdigits] at hall ⊢
    exact .positive hfirst hall

/-- A positional literal without superfluous zeros is a number. -/
theorem showsUnsigned_of_denotes (hwhole : Whole whole) (hplaces : Places fraction)
    (h : Denotes (whole ++ fraction) d) : ShowsUnsigned d (whole ++ fraction) := by
  have hshows := ShowsUnsigned.intro hwhole hplaces .none
  rw [List.append_nil, zero_sub] at hshows
  rw [h.unique (denotes_append hwhole hplaces)]
  exact hshows

theorem Whole.take (h : Whole whole) (k : Nat) : Whole (whole.take (k + 1)) := by
  cases h with
  | zero =>
      rw [List.take_succ_cons, List.take_nil]
      exact .zero
  | positive hfirst hdigits =>
      exact .positive hfirst fun c hc => hdigits c (List.mem_of_mem_take (i := k + 1) hc)

/-- With zeros in front of few digits, what is before the point begins with a zero only if it
is alone there. -/
theorem whole_take_padded {digits : List Char} (hwhole : Whole digits) (k : Nat) :
    Whole ((List.replicate (k + 1 + 1 - digits.length) '0' ++ digits).take
      ((List.replicate (k + 1 + 1 - digits.length) '0' ++ digits).length - (k + 1))) := by
  rcases Nat.lt_or_ge (k + 1) digits.length with hlt | hle
  · obtain ⟨j, hj⟩ := Nat.exists_eq_add_of_lt hlt
    have hnone : k + 1 + 1 - digits.length = 0 := by omega
    have hcount : digits.length - (k + 1) = j + 1 := by omega
    rw [hnone, List.replicate_zero, List.nil_append, hcount]
    exact hwhole.take j
  · obtain ⟨j, hj⟩ := Nat.exists_eq_add_of_le hle
    have hzeros : k + 1 + 1 - digits.length = j + 1 := by omega
    rw [hzeros, List.replicate_succ, List.cons_append, List.length_cons, List.length_append,
      List.length_replicate]
    have hone : j + digits.length + 1 - (k + 1) = 1 := by omega
    rw [hone]
    exact .zero

theorem showsUnsigned_withPlaces (significand k : Nat) :
    ShowsUnsigned ⟨significand, .negSucc k⟩ (withPlaces significand (k + 1)) := by
  have hdenotes := Decimal.denotes_withPlaces significand k
  have hall : ∀ c ∈ Nat.toDigits 10 significand, c.isDigit = true :=
    Decimal.isDigit_of_mem_toDigits
  have hwhole := whole_toDigits significand
  simp only [withPlaces] at hdenotes ⊢
  generalize Nat.toDigits 10 significand = digits at hall hwhole hdenotes ⊢
  refine showsUnsigned_of_denotes (whole_take_padded hwhole k) (.point ?_ ?_) hdenotes
  · intro hnil
    have hlength := congrArg List.length hnil
    rw [List.length_drop, List.length_append, List.length_replicate, List.length_nil] at hlength
    omega
  · intro c hc
    rcases List.mem_append.mp (List.mem_of_mem_drop hc) with hzero | hdigit
    · exact Decimal.isDigit_of_mem_zeros c hzero
    · exact hall c hdigit

/-- The decimal number with a digit behind the point at least. -/
def pointed (d : Decimal) : Decimal :=
  match d.exponent with
  | .ofNat k => ⟨d.significand * tenTo (k + 1), -1⟩
  | .negSucc _ => d

/-- The decimal number that is written: the same one where it has an exponent. -/
def written (d : Decimal) : Decimal :=
  if -5 ≤ leadingExponent d && leadingExponent d ≤ 15 then pointed d else d

theorem showsUnsigned_positional (h : d.significand = 0 → d.exponent = 0) :
    ShowsUnsigned (pointed d) (positional d) := by
  obtain ⟨significand, exponent⟩ := d
  cases exponent with
  | negSucc k =>
      rw [positional, if_pos (Int.negSucc_lt_zero k)]
      exact showsUnsigned_withPlaces significand k
  | ofNat k =>
      have hwhole : Whole (Nat.toDigits 10 significand ++ List.replicate k '0') := by
        by_cases hzero : significand = 0
        · obtain rfl : k = 0 := by simpa using h hzero
          rw [List.replicate_zero, List.append_nil]
          exact whole_toDigits significand
        · obtain ⟨first, more, hdigits, hfirst⟩ := Decimal.exists_toDigits_eq hzero
          have hall : ∀ c ∈ Nat.toDigits 10 significand, c.isDigit = true :=
            Decimal.isDigit_of_mem_toDigits
          rw [hdigits] at hall ⊢
          exact .positive hfirst (List.forall_mem_append.mpr ⟨hall, Decimal.isDigit_of_mem_zeros⟩)
      have hshows := ShowsUnsigned.intro hwhole
        (.point (List.cons_ne_nil '0' []) (List.forall_mem_singleton.mpr rfl)) .none
      rw [List.append_nil, List.tail_cons, List.append_assoc, ← List.replicate_succ',
        Decimal.ofDigitChars_append_zeros] at hshows
      rw [positional, if_neg (show ¬Int.ofNat k < 0 from Int.not_lt.mpr (Int.natCast_nonneg k))]
      exact hshows

theorem scale_scientific (exponent : Int) :
    Scale ('e' :: (if exponent < 0 then '-' else '+') :: Nat.toDigits 10 exponent.natAbs)
      exponent := by
  have hscale : ∀ {sign negative}, Sign sign negative →
      Scale ('e' :: (sign ++ Nat.toDigits 10 exponent.natAbs))
        (if negative then -(exponent.natAbs : Int) else exponent.natAbs) := by
    intro sign negative hsign
    have h := Scale.marked (.inl rfl) hsign Nat.toDigits_ne_nil
      (Decimal.isDigit_of_mem_toDigits (n := exponent.natAbs))
    rwa [Nat.ofDigitChars_ten_toDigits] at h
  split
  · next hnegative =>
    have h := hscale .minus
    rw [if_pos rfl, Int.ofNat_natAbs_of_nonpos hnegative.le, neg_neg] at h
    exact h
  · next hpositive =>
    have h := hscale .plus
    rw [if_neg Bool.false_ne_true, Int.natAbs_of_nonneg (not_lt.mp hpositive)] at h
    exact h

theorem exists_scientific_eq {first : Char} {more : List Char}
    (h : Nat.toDigits 10 d.significand = first :: more) :
    ∃ fraction, ((∀ c ∈ more, c.isDigit = true) → Places fraction) ∧ fraction.tail = more ∧
      scientific d = [first] ++ (fraction ++ 'e' :: (if leadingExponent d < 0 then '-' else '+') ::
        Nat.toDigits 10 (leadingExponent d).natAbs) := by
  cases more with
  | nil => exact ⟨[], fun _ => .none, rfl, by rw [scientific, h]; rfl⟩
  | cons second more =>
      exact ⟨'.' :: second :: more, fun hdigits => .point (List.cons_ne_nil _ _) hdigits, rfl,
        by rw [scientific, h]; rfl⟩

theorem showsUnsigned_scientific (h : d.significand ≠ 0) : ShowsUnsigned d (scientific d) := by
  obtain ⟨first, more, hdigits, hfirst⟩ := Decimal.exists_toDigits_eq h
  obtain ⟨fraction, hplaces, htail, htext⟩ := exists_scientific_eq hdigits
  have hall : ∀ c ∈ Nat.toDigits 10 d.significand, c.isDigit = true :=
    Decimal.isDigit_of_mem_toDigits
  have hvalue : Nat.ofDigitChars 10 (Nat.toDigits 10 d.significand) 0 = d.significand :=
    Nat.ofDigitChars_ten_toDigits
  have hexponent : leadingExponent d - more.length = d.exponent := by
    rw [leadingExponent, hdigits, List.length_cons]
    omega
  rw [hdigits] at hall hvalue
  obtain ⟨hdigit, hmore⟩ := List.forall_mem_cons.mp hall
  have hshows := ShowsUnsigned.intro (.positive hfirst (List.forall_mem_singleton.mpr hdigit))
    (hplaces hmore) (scale_scientific (leadingExponent d))
  rw [htail, List.singleton_append, hvalue, hexponent, ← htext] at hshows
  exact hshows

/-- The text of a decimal number is a number. -/
theorem showsUnsigned_ofDecimal (h : d.significand = 0 → d.exponent = 0) :
    ShowsUnsigned (written d) (ofDecimal d) := by
  have htext : ofDecimal d = if -5 ≤ leadingExponent d && leadingExponent d ≤ 15 then positional d
      else scientific d := rfl
  rw [written, htext]
  split
  · exact showsUnsigned_positional h
  · next hfar =>
    refine showsUnsigned_scientific fun hzero => hfar ?_
    rw [leadingExponent, h hzero, hzero]
    decide

theorem toRat_written (d : Decimal) : (written d).toRat = d.toRat := by
  rw [written]
  split
  · obtain ⟨significand, exponent⟩ := d
    cases exponent with
    | ofNat k =>
        show Decimal.toRat ⟨significand * 10 ^ (k + 1), -1⟩ = _
        rw [Decimal.toRat_mul_pow]
        have hexponent : (-1 : Int) + (k + 1 : Nat) = Int.ofNat k := by
          rw [Nat.cast_succ, neg_add_cancel_comm_assoc]
          rfl
        rw [hexponent]
    | negSucc k => rfl
  · rfl

/-- The decimal number that is written for a finite number. -/
def ofFinite (x : Binary64) : Decimal := written (Decimal.shortest .toEven x.magnitude)

theorem showsNumber_ofNumber {x : Binary64} (h : x.isFinite = true) :
    ShowsNumber x.negative (ofFinite x) (ofNumber x) := by
  have hzero : (Decimal.shortest .toEven x.magnitude).significand = 0 →
      (Decimal.shortest .toEven x.magnitude).exponent = 0 := by
    intro hsignificand
    by_cases hmagnitude : x.magnitude = 0
    · rw [Decimal.shortest, if_pos hmagnitude]
    · have hle : x.magnitude ≤ Binary64.infiniteMagnitude := (of_decide_eq_true h).le
      have hreads : Decimal.readsAs x.magnitude (Decimal.shortest .toEven x.magnitude) = true :=
        Decimal.readsAs_shortest hle
      have hpos := Decimal.significand_pos hmagnitude hreads
      omega
  have hshows := showsUnsigned_ofDecimal hzero
  have htext : ofNumber x =
      if x.negative then '-' :: ofDecimal (Decimal.shortest .toEven x.magnitude)
      else ofDecimal (Decimal.shortest .toEven x.magnitude) := by
    rw [ofNumber, h]
    rfl
  rw [htext]
  cases x.negative with
  | true => exact .negative hshows
  | false => exact .positive hshows

theorem nearest_ofFinite {x : Binary64} (h : x.isFinite = true) :
    (ofFinite x).nearest x.negative = x := by
  rw [ofFinite, Decimal.nearest_eq_of_toRat_eq x.negative (toRat_written _)]
  exact Decimal.nearest_shortest .toEven x (of_decide_eq_true h).le

/-! ## Texts -/

theorem spellsChar_escape (c : Char) : SpellsChar c (escape c) := by
  have hdigit : ∀ n < 16, HexDigit n.digitChar n := fun n hn => ⟨hn, .inl rfl⟩
  fun_cases escape c with
  | case8 _ _ _ _ _ _ _ hcontrol =>
      have hunit := CodeUnit.intro (hdigit 0 (by decide)) (hdigit 0 (by decide))
        (hdigit (c.toNat / 16) (by omega)) (hdigit (c.toNat % 16) (Nat.mod_lt _ (by decide)))
      have hvalue : ((0 * 16 + 0) * 16 + c.toNat / 16) * 16 + c.toNat % 16 = c.toNat := by omega
      rw [hvalue] at hunit
      exact .unit hunit
  | case9 hquote hbackslash _ _ _ _ _ hcontrol =>
      exact .itself hquote hbackslash (Nat.le_of_not_lt hcontrol)
  | _ =>
      -- the characters that have an escape of one letter
      subst c
      exact .short (by decide)

theorem spells_flatMap_escape (key : List Char) : Spells key (key.flatMap escape) := by
  induction key with
  | nil => exact .nil
  | cons c key ih => exact .cons (spellsChar_escape c) ih

/-! ## Values -/

mutual

/-- What the text of a value says: counts and numbers are both numbers in JSON, and a number
that is not finite is none. -/
def tree : Json → Tree
  | .bool b => .bool b
  | .count n => .number false ⟨n, 0⟩
  | .number x => if x.isFinite then .number x.negative (ofFinite x) else .null
  | .text s => .text s
  | .array items => .array (itemTrees items)
  | .object members => .object (memberTrees members)

def itemTrees : List Json → List Tree
  | [] => []
  | v :: rest => tree v :: itemTrees rest

def memberTrees : List (String × Json) → List (String × Tree)
  | [] => []
  | (name, v) :: rest => (name, tree v) :: memberTrees rest

end

theorem showsNumber_count (n : Nat) : ShowsNumber false ⟨n, 0⟩ (Nat.toDigits 10 n) := by
  have hshows := ShowsUnsigned.intro (whole_toDigits n) .none .none
  simp only [List.tail_nil, List.append_nil, Nat.ofDigitChars_ten_toDigits] at hshows
  exact .positive hshows

theorem gap_nil : Gap [] := nofun

theorem showsName_quote (name : String) : ShowsName name (quote name.toList ++ [':']) := by
  have hname := ShowsName.intro gap_nil (spells_flatMap_escape name.toList) gap_nil
  simpa [quote] using hname

mutual

/-- The text of a value is a JSON text. -/
theorem shows_render : (v : Json) → Shows (.value v.tree) v.render
  | .bool true => .isTrue
  | .bool false => .isFalse
  | .count n => .number (showsNumber_count n)
  | .number x => by
      rw [tree, render]
      split
      · next hfinite => exact .number (showsNumber_ofNumber hfinite)
      · next hinfinite =>
        rw [ofNumber, Bool.eq_false_iff.mpr hinfinite]
        exact .null
  | .text s => .text (spells_flatMap_escape s.toList)
  | .array [] => .emptyArray gap_nil
  | .array (v :: rest) => .array (shows_renderItems (v :: rest) (List.cons_ne_nil v rest))
  | .object [] => .emptyObject gap_nil
  | .object (m :: rest) => .object (shows_renderMembers (m :: rest) (List.cons_ne_nil m rest))

theorem shows_renderItems :
    (items : List Json) → items ≠ [] → Shows (.items (itemTrees items)) (renderItems items)
  | [], hne => absurd rfl hne
  | [v], _ => by
      have hitem := Shows.lastItem gap_nil (shows_render v) gap_nil
      rwa [List.nil_append, List.append_nil] at hitem
  | v :: w :: rest, _ =>
      .item gap_nil (shows_render v) gap_nil
        (shows_renderItems (w :: rest) (List.cons_ne_nil w rest))

theorem shows_renderMembers : (members : List (String × Json)) → members ≠ [] →
    Shows (.members (memberTrees members)) (renderMembers members)
  | [], hne => absurd rfl hne
  | [(name, v)], _ => by
      have hmember := Shows.lastMember (showsName_quote name) gap_nil (shows_render v) gap_nil
      simpa [memberTrees, renderMembers] using hmember
  | (name, v) :: m :: rest, _ => by
      have hmember := Shows.member (showsName_quote name) gap_nil (shows_render v) gap_nil
        (shows_renderMembers (m :: rest) (List.cons_ne_nil m rest))
      simpa [memberTrees, renderMembers] using hmember

end

theorem isText_render (v : Json) : IsText v.tree v.render := by
  have htext := IsText.intro gap_nil (shows_render v) gap_nil
  rwa [List.nil_append, List.append_nil] at htext

theorem read?_render (v : Json) : read? v.render = some v.tree := read?_of_isText (isText_render v)

/-! ## No control characters -/

/-- There is no character below the space. -/
def Printable (cs : List Char) : Prop := ∀ c ∈ cs, 0x20 ≤ c.toNat

instance (cs : List Char) : Decidable (Printable cs) :=
  List.decidableBAll (fun c : Char => 0x20 ≤ c.toNat) cs

theorem Printable.append {cs' : List Char} (h : Printable cs) (h' : Printable cs') :
    Printable (cs ++ cs') :=
  List.forall_mem_append.mpr ⟨h, h'⟩

theorem Printable.cons {c : Char} (hc : 0x20 ≤ c.toNat) (h : Printable cs) : Printable (c :: cs) :=
  List.forall_mem_cons.mpr ⟨hc, h⟩

theorem printable_of_inWord (h : ∀ c ∈ cs, inWord c = true) : Printable cs := by
  have hcontrol : ∀ n < 0x20, inWord (.ofNat n) = false := by decide
  intro c hc
  by_contra hlt
  have hword := hcontrol c.toNat (Nat.lt_of_not_le hlt)
  rw [Char.ofNat_toNat, h c hc] at hword
  exact Bool.noConfusion hword

theorem HexDigit.printable {c : Char} (h : HexDigit c n) : 0x20 ≤ c.toNat := by
  have hdigit : ∀ n < 16, 0x20 ≤ n.digitChar.toNat ∧ 0x20 ≤ n.digitChar.toUpper.toNat := by decide
  obtain ⟨hn, rfl | rfl⟩ := h
  · exact (hdigit n hn).1
  · exact (hdigit n hn).2

theorem CodeUnit.printable (h : CodeUnit cs n) : Printable cs := by
  cases h with
  | intro ha hb hc hd =>
      exact .cons ha.printable (.cons hb.printable (.cons hc.printable (.cons hd.printable nofun)))

theorem SpellsChar.printable {c : Char} (h : SpellsChar c cs) : Printable cs := by
  cases h with
  | itself _ _ hc => exact .cons hc nofun
  | short hmem =>
      have hletters : Printable (shortEscapes.map Prod.fst) := by decide
      exact .cons (by decide) (.cons (hletters _ (List.mem_map_of_mem hmem)) nofun)
  | unit hunit => exact .cons (by decide) (.cons (by decide) hunit.printable)
  | @pair _ digits digits' _ _ hhigh hlow =>
      have hsecond : Printable ('\\' :: 'u' :: digits') :=
        .cons (by decide) (.cons (by decide) hlow.printable)
      exact .cons (by decide) (.cons (by decide) (hhigh.printable.append hsecond))

theorem Spells.printable {key : List Char} (h : Spells key cs) : Printable cs := by
  induction h with
  | nil => nofun
  | cons hchar _ ih => exact hchar.printable.append ih

theorem printable_quote (key : List Char) : Printable (quote key) :=
  .cons (by decide) ((spells_flatMap_escape key).printable.append (by decide))

mutual

/-- The text of a value has no control characters, whatever texts there are in it. -/
theorem printable_render : (v : Json) → Printable v.render
  | .bool true => printable_of_inWord (List.all_eq_true.mp rfl)
  | .bool false => printable_of_inWord (List.all_eq_true.mp rfl)
  | .count n => printable_of_inWord (showsNumber_count n).inWord
  | .number x => by
      by_cases hfinite : x.isFinite = true
      · exact printable_of_inWord (showsNumber_ofNumber hfinite).inWord
      · have hnull : ofNumber x = ['n', 'u', 'l', 'l'] := by
          rw [ofNumber, Bool.eq_false_iff.mpr hfinite]
          rfl
        rw [render, hnull]
        decide
  | .text s => printable_quote s.toList
  | .array items => .cons (by decide) ((printable_renderItems items).append (by decide))
  | .object members => .cons (by decide) ((printable_renderMembers members).append (by decide))

theorem printable_renderItems : (items : List Json) → Printable (renderItems items)
  | [] => nofun
  | [v] => printable_render v
  | v :: w :: rest =>
      (printable_render v).append (.cons (by decide) (printable_renderItems (w :: rest)))

theorem printable_renderMembers : (members : List (String × Json)) →
    Printable (renderMembers members)
  | [] => nofun
  | [(name, v)] => (printable_quote _).append (.cons (by decide) (printable_render v))
  | (name, v) :: m :: rest =>
      ((printable_quote _).append (.cons (by decide) (printable_render v))).append
        (.cons (by decide) (printable_renderMembers (m :: rest)))

end

end Json
end Stepwise
