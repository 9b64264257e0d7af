import Stepwise.Json.ReadNumber
import Stepwise.Proofs.Binary64.Exact
import Stepwise.Proofs.Binary64.Text

/-!
# Reading plain numbers

A plain number, `-?(0|[1-9][0-9]*)(\.[0-9]+)?`, is a JSON number and a literal of
expressions at once.  As a literal it is read as the number nearest to what it denotes.
The JSON reader gathers a significand and scales it, which rounds twice: once for the
significand and once for the quotient.

It gives the nearest number all the same when the first rounding has nothing to do:
for whole numbers that fit the significand, and for significands up to 2 ^ 53 with at
most 22 places, because 10 ^ 22 is the last power of ten that is a binary64 number
(`Plain.number?_of_isExact`).  Whatever it gives is finite (`Scaled.isFinite_of_numeral?`).
-/

namespace Stepwise.Json

open Decimal (Fraction Denotes tenTo)
open Binary64

/-- The digits before the point: a single zero, or digits that do not begin with one. -/
inductive Whole : List Char → Prop
  | zero : Whole ['0']
  | positive {first : Char} {more : List Char} : first ≠ '0' →
      (∀ c ∈ first :: more, c.isDigit) → Whole (first :: more)

/-- What may follow them: nothing, or a point and at least one digit. -/
inductive Places : List Char → Prop
  | none : Places []
  | point {digits : List Char} : digits ≠ [] → (∀ c ∈ digits, c.isDigit) → Places ('.' :: digits)

/-- The text is of the shape `-?(0|[1-9][0-9]*)(\.[0-9]+)?`, and `d` with this sign is
what it denotes. -/
inductive Plain : (negative : Bool) → Decimal → List Char → Prop
  | intro {whole fraction : List Char} (negative : Bool) : Whole whole → Places fraction →
      Plain negative ⟨Nat.ofDigitChars 10 (whole ++ fraction.tail) 0, -fraction.tail.length⟩
        (if negative then '-' :: (whole ++ fraction) else whole ++ fraction)

/-- Neither a digit nor a point nor an exponent comes next. -/
def Ends (rest : List Char) : Prop :=
  ∀ c ∈ rest.head?, c.isDigit = false ∧ c ≠ '.' ∧ c ≠ 'e' ∧ c ≠ 'E'

variable {negative isWhole : Bool} {d : Decimal} {n : Scaled}
  {cs whole fraction digits rest : List Char}

theorem ends_nil : Ends [] := nofun

theorem ends_brace (rest : List Char) : Ends ('}' :: rest) := by
  rintro c ⟨⟩
  decide

/-! ## The shape -/

theorem Whole.isDigit (h : Whole whole) : ∀ c ∈ whole, c.isDigit = true := by
  cases h with
  | zero => simp
  | positive _ hdigits => exact hdigits

theorem Whole.ne_nil (h : Whole whole) : whole ≠ [] := by
  cases h with
  | zero => exact List.cons_ne_nil _ _
  | positive _ _ => exact List.cons_ne_nil _ _

theorem Places.toFraction (h : Places fraction) : Fraction fraction := by
  cases h with
  | none => exact .none
  | point _ hdigits => exact .point hdigits

theorem denotes_append (hwhole : Whole whole) (hplaces : Places fraction) :
    Denotes (whole ++ fraction)
      ⟨Nat.ofDigitChars 10 (whole ++ fraction.tail) 0, -fraction.tail.length⟩ :=
  .intro hwhole.ne_nil hwhole.isDigit hplaces.toFraction

theorem Plain.literal (h : Plain negative d cs) : Decimal.Literal cs := by
  cases h with
  | intro _ hwhole hplaces =>
      have hunsigned := (denotes_append hwhole hplaces).unsigned
      cases negative with
      | true => exact .negative hunsigned
      | false => exact .positive hunsigned

theorem Plain.ofChars_eq (h : Plain negative d cs) : Binary64.ofChars cs = d.nearest negative := by
  cases h with
  | intro _ hwhole hplaces => exact Decimal.ofChars_of_denotes (denotes_append hwhole hplaces) _

/-! ## Gathering -/

theorem gather_le {limit start : Nat} (h : start ≤ limit) (digits : List Char) :
    (gather limit start digits).1 ≤ limit := by
  induction digits generalizing start with
  | nil => exact h
  | cons d digits ih =>
      rw [gather]
      split
      · next hle => exact ih hle
      · exact h

theorem le_ofDigitChars (start : Nat) (digits : List Char) :
    start ≤ Nat.ofDigitChars 10 digits start := by
  rw [Nat.ofDigitChars_eq_ofDigitChars_zero]
  exact Nat.le_add_right_of_le (Nat.le_mul_of_pos_left _ (Nat.pow_pos (by decide)))

theorem gather_eq {limit start : Nat} (h : Nat.ofDigitChars 10 digits start ≤ limit) :
    gather limit start digits = (Nat.ofDigitChars 10 digits start, []) := by
  induction digits generalizing start with
  | nil => rfl
  | cons d digits ih =>
      rw [Nat.ofDigitChars_cons] at h ⊢
      rw [gather, if_pos (Nat.le_trans (le_ofDigitChars _ digits) h)]
      exact ih h

/-- What is gathered of the digits before and after the point.  Digits that no longer fit
count for the exponent only. -/
def gathered (whole places : List Char) : Scaled :=
  let before := gather maxSignificand 0 whole
  let after := gather maxSignificand before.1 places
  ⟨after.1, before.2.length - (places.length - after.2.length)⟩

theorem significand_gathered_le (whole places : List Char) :
    (gathered whole places).significand ≤ maxSignificand :=
  gather_le (gather_le (Nat.zero_le _) whole) places

/-- Nothing is lost of digits whose number fits the significand. -/
theorem gathered_eq {places : List Char}
    (h : Nat.ofDigitChars 10 (whole ++ places) 0 ≤ maxSignificand) :
    gathered whole places = ⟨Nat.ofDigitChars 10 (whole ++ places) 0, -places.length⟩ := by
  rw [Nat.ofDigitChars_append] at h ⊢
  have hwhole := gather_eq (Nat.le_trans (le_ofDigitChars _ places) h)
  simp only [gathered, hwhole, gather_eq h, List.length_nil]
  congr 1
  omega

/-! ## The parts of a number -/

theorem Ends.takeWhile (h : Ends rest) : rest.takeWhile Char.isDigit = [] := by
  cases rest with
  | nil => rfl
  | cons c rest => rw [List.takeWhile_cons, if_neg (by simp [(h c rfl).1])]

theorem Ends.dropWhile (h : Ends rest) : rest.dropWhile Char.isDigit = rest := by
  cases rest with
  | nil => rfl
  | cons c rest => rw [List.dropWhile_cons, if_neg (by simp [(h c rfl).1])]

theorem Places.takeWhile_append (h : Places fraction) (hrest : Ends rest) :
    (fraction ++ rest).takeWhile Char.isDigit = [] := by
  cases h with
  | none => exact hrest.takeWhile
  | point _ _ => rfl

theorem Places.dropWhile_append (h : Places fraction) (hrest : Ends rest) :
    (fraction ++ rest).dropWhile Char.isDigit = fraction ++ rest := by
  cases h with
  | none => exact hrest.dropWhile
  | point _ _ => rfl

theorem readWhole_append (h : Whole whole) (hplaces : Places fraction) (hrest : Ends rest) :
    readWhole (whole ++ (fraction ++ rest)) =
      .ok (⟨(gather maxSignificand 0 whole).1, (gather maxSignificand 0 whole).2.length⟩,
        fraction ++ rest) := by
  have htake : (whole ++ (fraction ++ rest)).takeWhile Char.isDigit = whole := by
    rw [List.takeWhile_append_of_pos h.isDigit, hplaces.takeWhile_append hrest, List.append_nil]
  have hdrop : (whole ++ (fraction ++ rest)).dropWhile Char.isDigit = fraction ++ rest := by
    rw [List.dropWhile_append_of_pos h.isDigit, hplaces.dropWhile_append hrest]
  simp only [readWhole, htake, hdrop]
  -- the fault is a zero in front of other digits, which neither shape has
  cases h with
  | zero => rfl
  | @positive first more hfirst _ =>
      split
      · next heq => cases heq
      · next heq =>
        cases heq
        exact absurd rfl hfirst
      · rfl

theorem readFraction_append (n : Scaled) (h : Places fraction) (hrest : Ends rest) :
    readFraction n (fraction ++ rest) =
      let after := gather maxSignificand n.significand fraction.tail
      .ok (⟨after.1, n.exponent - (fraction.tail.length - after.2.length)⟩, rest) := by
  cases h with
  | none =>
      cases rest with
      | nil => simp [readFraction, gather]
      | cons c rest =>
          have hpoint : c ≠ '.' := (hrest c rfl).2.1
          simp [readFraction, gather, hpoint]
  | @point digits hne hdigits =>
      have htake : (digits ++ rest).takeWhile Char.isDigit = digits := by
        rw [List.takeWhile_append_of_pos hdigits, hrest.takeWhile, List.append_nil]
      have hdrop : (digits ++ rest).dropWhile Char.isDigit = rest := by
        rw [List.dropWhile_append_of_pos hdigits, hrest.dropWhile]
      simp only [List.cons_append, readFraction, htake, hdrop, List.tail_cons]

theorem readExponent_eq (n : Scaled) (hrest : Ends rest) : readExponent n rest = .ok (n, rest) := by
  cases rest with
  | nil => rfl
  | cons c rest =>
      obtain ⟨_, _, he, hE⟩ := hrest c rfl
      simp [readExponent, he, hE]

theorem readScaled_append (hwhole : Whole whole) (hplaces : Places fraction) (hrest : Ends rest) :
    readScaled (whole ++ (fraction ++ rest)) =
      .ok ((gathered whole fraction.tail, fraction.isEmpty), rest) := by
  have hlength : (rest.length == (fraction ++ rest).length) = fraction.isEmpty := by
    cases fraction with
    | nil => exact beq_self_eq_true rest.length
    | cons c fraction =>
        rw [List.isEmpty_cons, beq_eq_false_iff_ne, List.length_append, List.length_cons]
        omega
  simp only [readScaled, readWhole_append hwhole hplaces hrest,
    readFraction_append _ hplaces hrest, readExponent_eq _ hrest, hlength]
  rfl

/-! ## Numerals -/

/-- The numeral of a scaled significand, if it is in range. -/
def Scaled.numeral? (n : Scaled) (negative isWhole : Bool) : Option Numeral :=
  match if isWhole && n.exponent == 0 then integer? negative n.significand else none with
  | some i => some (.integer i)
  | none => n.value?.map fun x => .real { x with negative := negative }

/-- What reading gives when `rest` is left behind. -/
def reading (numeral? : Option Numeral) (rest : List Char) : Reading Numeral :=
  match numeral? with
  | some m => .ok (m, rest)
  | none => .error (.here .numberOutOfRange rest)

theorem readUnsigned_eq (h : readScaled cs = .ok ((n, isWhole), rest)) :
    readUnsigned negative cs = reading (n.numeral? negative isWhole) rest := by
  simp only [readUnsigned, h, Scaled.numeral?]
  generalize (if isWhole && n.exponent == 0 then integer? negative n.significand else none) = i
  cases i with
  | some i => rfl
  | none => cases n.value? <;> rfl

theorem readNumber_of_isDigit {c : Char} (h : c.isDigit = true) :
    readNumber (c :: cs) = readUnsigned false (c :: cs) := by
  unfold readNumber
  split
  · next heq =>
    cases heq
    exact absurd h (by decide)
  · rfl

/-- A plain number is read as far as it goes, with any sign and whatever follows. -/
theorem readNumber_append (hwhole : Whole whole) (hplaces : Places fraction) (hrest : Ends rest)
    (negative : Bool) :
    readNumber ((if negative then '-' :: (whole ++ fraction) else whole ++ fraction) ++ rest) =
      reading ((gathered whole fraction.tail).numeral? negative fraction.isEmpty) rest := by
  have hscaled := readScaled_append hwhole hplaces hrest
  rw [← List.append_assoc] at hscaled
  cases negative with
  | true => exact readUnsigned_eq hscaled
  | false =>
      rw [if_neg Bool.false_ne_true, ← readUnsigned_eq hscaled]
      have hdigits := hwhole.isDigit
      cases whole with
      | nil => exact absurd rfl hwhole.ne_nil
      | cons c whole => exact readNumber_of_isDigit (hdigits c List.mem_cons_self)

/-! ## Scaling -/

theorem isFinite_ofNat {s : Nat} (h : s ≤ maxSignificand) : (Binary64.ofNat s).isFinite = true := by
  have hmax : maxSignificand * unitsInOne ≤ units (1087 * binadeSize) * 1 := by decide +kernel
  exact isFinite_ofRatio false Nat.one_pos (Nat.le_trans (Nat.mul_le_mul_right _ h) hmax)
    (by decide)

theorem powerOfTen_eq (k : Nat) : powerOfTen k = Binary64.ofNat (tenTo k) := by
  rw [powerOfTen, Binary64.ofNat, ← Nat.one_mul (tenTo k)]
  exact Decimal.nearest_ofNat false 1 k

theorem isFinite_powerOfTen {k : Nat} (h : k ≤ maxPower) : (powerOfTen k).isFinite = true := by
  have hmax : tenTo maxPower * unitsInOne ≤ units (infiniteMagnitude - 1) * 1 := by decide +kernel
  rw [powerOfTen_eq]
  exact isFinite_ofRatio false Nat.one_pos
    (Nat.le_trans (Nat.mul_le_mul_right _ (Decimal.tenTo_le_tenTo h)) hmax) (by decide)

theorem unitsInOne_le_size_powerOfTen (k : Nat) : unitsInOne ≤ (powerOfTen k).size := by
  rw [powerOfTen_eq, ← units_one]
  refine le_size_ofRatio false Nat.one_pos ?_ (by decide)
  rw [units_one, Nat.mul_one]
  exact Nat.le_mul_of_pos_left _ (Decimal.tenTo_pos k)

/-- The powers of ten up to 10 ^ 22 are binary64 numbers. -/
theorem size_powerOfTen : ∀ k ≤ 22, (powerOfTen k).size = tenTo k * unitsInOne := by
  decide +kernel

theorem isFinite_scaleDown {x : Binary64} (h : x.isFinite = true) (k : Nat) :
    (scaleDown x k).isFinite = true := by
  fun_induction scaleDown x k with
  | case1 x k hk =>
      exact isFinite_div h (isFinite_powerOfTen hk) (unitsInOne_le_size_powerOfTen k)
  | case2 x k _ _ => exact h
  | case3 x k _ _ ih =>
      exact ih (isFinite_div h (isFinite_powerOfTen (Nat.le_refl _))
        (unitsInOne_le_size_powerOfTen maxPower))

/-- A scaled significand is a finite number, or it is out of range. -/
theorem Scaled.isFinite_of_value? {x : Binary64} (hs : n.significand ≤ maxSignificand)
    (h : n.value? = some x) : x.isFinite = true := by
  have hfinite := isFinite_ofNat hs
  simp only [Scaled.value?] at h
  split at h
  · next k _ =>
    split at h
    · next hk =>
      split at h
      · cases h
      · next hinfinite =>
        cases h
        rw [mul_eq_ofRatio hfinite (isFinite_powerOfTen hk)] at hinfinite ⊢
        exact isFinite_ofRatio_iff.mpr (Bool.eq_false_iff.mpr hinfinite)
    · split at h
      · cases h
        exact hfinite
      · cases h
  · cases h
    exact isFinite_scaleDown hfinite _

/-! ## The value of a numeral -/

theorem value_of_integer? {size : Nat} {i : Int} (h : integer? negative size = some i) :
    (Numeral.integer i).value = { Binary64.ofNat size with negative := negative } := by
  cases negative with
  | false =>
      cases h
      rw [Numeral.value, Int.natAbs_natCast,
        decide_eq_false (Int.not_lt.mpr (Int.natCast_nonneg _))]
  | true =>
      simp only [integer?, Bool.not_true, Bool.false_eq_true, if_false] at h
      split at h
      · next hsize =>
        cases h
        simp only [ne_eq, Bool.and_eq_true, decide_eq_true_eq] at hsize
        rw [Numeral.value, Int.natAbs_neg, Int.natAbs_natCast, decide_eq_true (by omega)]
      · cases h

theorem Scaled.value_of_numeral? {m : Numeral} (h : n.numeral? negative isWhole = some m) :
    m.value = { Binary64.ofNat n.significand with negative := negative } ∨
      ∃ x, n.value? = some x ∧ m.value = { x with negative := negative } := by
  simp only [Scaled.numeral?] at h
  split at h
  · next i hi =>
    cases h
    split at hi
    · exact .inl (value_of_integer? hi)
    · cases hi
  · obtain ⟨x, hx, rfl⟩ := Option.map_eq_some_iff.mp h
    exact .inr ⟨x, hx, rfl⟩

theorem Scaled.isFinite_of_numeral? {m : Numeral} (hs : n.significand ≤ maxSignificand)
    (h : n.numeral? negative isWhole = some m) : m.value.isFinite = true := by
  rcases value_of_numeral? h with hvalue | ⟨x, hx, hvalue⟩
  · have hfinite := isFinite_ofNat hs
    rw [hvalue]
    exact hfinite
  · have hfinite := isFinite_of_value? hs hx
    rw [hvalue]
    exact hfinite

/-! ## Exact numbers -/

/-- Reading the number loses nothing before the quotient is rounded: it is whole and fits
the significand, or both sides of the quotient are binary64 numbers. -/
def IsExact (d : Decimal) : Prop :=
  d.exponent = 0 ∧ d.significand ≤ maxSignificand ∨ -22 ≤ d.exponent ∧ d.significand ≤ exactLimit

instance : DecidablePred IsExact := fun d =>
  inferInstanceAs (Decidable (d.exponent = 0 ∧ d.significand ≤ maxSignificand ∨
    -22 ≤ d.exponent ∧ d.significand ≤ exactLimit))

theorem IsExact.significand_le (h : IsExact d) : d.significand ≤ maxSignificand := by
  rcases h with ⟨_, h⟩ | ⟨_, h⟩
  · exact h
  · exact Nat.le_trans h (by decide)

theorem mul_powerOfTen_zero {x : Binary64} (h : x.isFinite = true) : x.mul (powerOfTen 0) = x := by
  have hone : (powerOfTen 0).size = unitsInOne := by
    rw [size_powerOfTen 0 (Nat.zero_le _), tenTo, Nat.pow_eq, Nat.pow_zero, Nat.one_mul]
  have hpositive : (powerOfTen 0).negative = false := by
    rw [powerOfTen_eq, Binary64.ofNat, negative_ofRatio]
  exact mul_of_size_eq h (isFinite_powerOfTen (Nat.zero_le _)) hone hpositive

theorem value?_of_exponent_eq_zero {s : Nat} (h : s ≤ maxSignificand) :
    Scaled.value? ⟨s, .ofNat 0⟩ = some (Binary64.ofNat s) := by
  have hfinite := isFinite_ofNat h
  simp only [Scaled.value?, if_pos (Nat.zero_le maxPower), mul_powerOfTen_zero hfinite,
    isInfinite_eq_false_of_isFinite hfinite, Bool.false_eq_true, if_false]

theorem scaleDown_ofNat {s k : Nat} (hs : s ≤ exactLimit) (hk : k ≤ 22) :
    scaleDown (Binary64.ofNat s) k = ofRatio false (s * unitsInOne) (tenTo k) := by
  have hmax : k ≤ maxPower := Nat.le_trans hk (by decide)
  have hfinite := isFinite_ofNat (Nat.le_trans hs (by decide) : s ≤ maxSignificand)
  rw [scaleDown, if_pos hmax, div_of_size_eq hfinite (isFinite_powerOfTen hmax) (size_ofNat hs)
    (size_powerOfTen k hk) (Decimal.tenTo_pos k), powerOfTen_eq, Binary64.ofNat, Binary64.ofNat,
    negative_ofRatio, negative_ofRatio]
  rfl

theorem exists_numeral?_whole {s : Nat} (h : s ≤ maxSignificand) (negative : Bool) :
    ∃ m, Scaled.numeral? ⟨s, .ofNat 0⟩ negative true = some m ∧
      m.value = Decimal.nearest negative ⟨s, .ofNat 0⟩ := by
  have hnearest : Decimal.nearest negative ⟨s, .ofNat 0⟩ =
      { Binary64.ofNat s with negative := negative } := by
    rw [Decimal.nearest_ofNat, Binary64.ofNat, ofRatio_with_negative, tenTo, Nat.pow_eq,
      Nat.pow_zero, Nat.mul_one]
  have hwhole : (true && Int.ofNat 0 == 0) = true := rfl
  simp only [Scaled.numeral?, hwhole, if_true, value?_of_exponent_eq_zero h]
  cases hi : integer? negative s with
  | some i => exact ⟨_, rfl, (value_of_integer? hi).trans hnearest.symm⟩
  | none => exact ⟨_, rfl, hnearest.symm⟩

theorem numeral?_places (s k : Nat) (negative isWhole : Bool) :
    Scaled.numeral? ⟨s, .negSucc k⟩ negative isWhole =
      some (.real { scaleDown (Binary64.ofNat s) (k + 1) with negative := negative }) := by
  have hscaled : (isWhole && Int.negSucc k == 0) = false := Bool.and_false isWhole
  simp only [Scaled.numeral?, hscaled, Bool.false_eq_true, if_false]
  rfl

/-- A quotient of binary64 numbers is rounded once. -/
theorem exists_numeral?_places {s k : Nat} (hs : s ≤ exactLimit) (hk : k + 1 ≤ 22)
    (negative isWhole : Bool) :
    ∃ m, Scaled.numeral? ⟨s, .negSucc k⟩ negative isWhole = some m ∧
      m.value = Decimal.nearest negative ⟨s, .negSucc k⟩ := by
  refine ⟨_, numeral?_places s k negative isWhole, ?_⟩
  rw [Numeral.value, scaleDown_ofNat hs hk, ofRatio_with_negative, Decimal.nearest_negSucc]

/-- An exact number is read as the number nearest to it. -/
theorem exists_numeral?_of_isExact (hplaces : Places fraction)
    (h : IsExact ⟨Nat.ofDigitChars 10 (whole ++ fraction.tail) 0, -fraction.tail.length⟩)
    (negative : Bool) :
    ∃ m, (gathered whole fraction.tail).numeral? negative fraction.isEmpty = some m ∧
      m.value = Decimal.nearest negative
        ⟨Nat.ofDigitChars 10 (whole ++ fraction.tail) 0, -fraction.tail.length⟩ := by
  rw [gathered_eq h.significand_le]
  cases hplaces with
  | none => exact exists_numeral?_whole h.significand_le negative
  | @point digits hne _ =>
      obtain ⟨k, hk⟩ := Nat.exists_eq_succ_of_ne_zero (Nat.ne_of_gt (List.length_pos_iff.mpr hne))
      rw [IsExact, List.tail_cons, hk] at h
      rw [List.tail_cons, hk]
      -- with places the exponent is not zero, so it is the quotient that is exact
      rcases h with ⟨hzero, _⟩ | ⟨hplaces, hs⟩
      · exact absurd hzero (Int.negSucc_ne_zero k)
      · have hle : -22 ≤ Int.negSucc k := hplaces
        exact exists_numeral?_places hs (by omega) negative _

/-! ## Plain numbers -/

/-- A plain number is one numeral whatever follows, or it is out of range.  The numeral is
finite, and if the number is exact it is the nearest to it. -/
theorem Plain.exists_numeral? (h : Plain negative d cs) :
    ∃ numeral? : Option Numeral,
      (∀ rest, Ends rest → readNumber (cs ++ rest) = reading numeral? rest) ∧
      (∀ m, numeral? = some m → m.value.isFinite = true) ∧
      (IsExact d → ∃ m, numeral? = some m ∧ m.value = d.nearest negative) := by
  cases h with
  | intro _ hwhole hplaces =>
      refine ⟨_, fun rest hrest => readNumber_append hwhole hplaces hrest negative, ?_, ?_⟩
      · exact fun m => Scaled.isFinite_of_numeral? (significand_gathered_le _ _)
      · exact fun hexact => exists_numeral?_of_isExact hplaces hexact negative

/-- The number that a text is read as, if it is a numeral as a whole. -/
def number? (cs : List Char) : Option Binary64 :=
  match readNumber cs with
  | .ok (m, []) => some m.value
  | _ => none

theorem number?_eq {numeral? : Option Numeral} (h : readNumber cs = reading numeral? []) :
    number? cs = numeral?.map Numeral.value := by
  rw [number?, h]
  cases numeral? <;> rfl

theorem Plain.number?_of_isExact (h : Plain negative d cs) (hexact : IsExact d) :
    number? cs = some (Binary64.ofChars cs) := by
  obtain ⟨numeral?, hread, _, hnearest⟩ := h.exists_numeral?
  obtain ⟨m, rfl, hm⟩ := hnearest hexact
  have hwhole := hread [] ends_nil
  rw [List.append_nil] at hwhole
  rw [number?_eq hwhole, h.ofChars_eq, ← hm]
  rfl

end Stepwise.Json
