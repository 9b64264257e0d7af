import Stepwise.Decimal.Text
import Stepwise.Proofs.Decimal.Literal
import Mathlib.Data.List.TakeDrop
import Mathlib.Data.List.TakeWhile

/-!
# What is read as a number

A text that is read as a number has a sign that may be missing, digits before or behind a
point, and an exponent that may be missing.  `Numeral` and `Signed` say so on the shape of
the text, and with it which decimal number it is; `Literal` is the part of this language
without exponents, without `+` and with digits before the point.

Main statements: the reader takes these texts for the numbers that they are
(`read?_of_numeral`), and a text that is read as a finite number is one of them
(`exists_signed_of_isFinite`): the words for infinity and not-a-number are all that is left.
-/

namespace Stepwise.Decimal

variable {cs rest whole fraction scale digits : List Char} {d : Decimal} {negative : Bool}
  {exponent : Int}

/-! ## The shape -/

/-- A sign in front of digits, and whether it is a `-`. -/
inductive Sign : List Char → Bool → Prop
  | none : Sign [] false
  | plus : Sign ['+'] false
  | minus : Sign ['-'] true

/-- What an exponent adds to the place of the point: nothing where there is none. -/
inductive Scale : List Char → Int → Prop
  | none : Scale [] 0
  | marked {mark : Char} {sign digits : List Char} {negative : Bool} : mark = 'e' ∨ mark = 'E' →
      Sign sign negative → digits ≠ [] → (∀ c ∈ digits, c.isDigit) →
      Scale (mark :: (sign ++ digits))
        (if negative then -(Nat.ofDigitChars 10 digits 0 : Int) else Nat.ofDigitChars 10 digits 0)

/-- A number without its sign. -/
inductive Numeral : List Char → Decimal → Prop
  | intro {whole fraction scale : List Char} {exponent : Int} : (∀ c ∈ whole, c.isDigit) →
      Fraction fraction → whole ++ fraction.tail ≠ [] → Scale scale exponent →
      Numeral (whole ++ (fraction ++ scale))
        ⟨Nat.ofDigitChars 10 (whole ++ fraction.tail) 0, exponent - fraction.tail.length⟩

/-- A number, and whether it begins with a `-`. -/
inductive Signed : List Char → Bool → Decimal → Prop
  | intro {sign cs : List Char} {negative : Bool} {d : Decimal} : Sign sign negative →
      Numeral cs d → Signed (sign ++ cs) negative d

/-! ## Signs -/

theorem exists_sign (cs : List Char) :
    ∃ sign, Sign sign (splitSign cs).1 ∧ cs = sign ++ (splitSign cs).2 := by
  unfold splitSign
  split
  · exact ⟨_, .minus, rfl⟩
  · exact ⟨_, .plus, rfl⟩
  · exact ⟨_, .none, rfl⟩

/-- No sign comes next. -/
def NoSign (cs : List Char) : Prop := ∀ c ∈ cs.head?, c ≠ '-' ∧ c ≠ '+'

theorem Sign.splitSign_append {sign : List Char} (h : Sign sign negative)
    (hcs : NoSign cs) : splitSign (sign ++ cs) = (negative, cs) := by
  cases h with
  | plus => rfl
  | minus => rfl
  | none =>
      rw [List.nil_append, splitSign.eq_def]
      split
      · exact absurd rfl (hcs '-' rfl).1
      · exact absurd rfl (hcs '+' rfl).2
      · rfl

/-! ## Runs of characters -/

/-- What comes next is not of this kind. -/
def Stops (p : Char → Bool) (rest : List Char) : Prop := ∀ c ∈ rest.head?, p c = false

theorem Stops.takeWhile_append {p : Char → Bool} (h : Stops p rest) (hcs : ∀ c ∈ cs, p c = true) :
    (cs ++ rest).takeWhile p = cs := by
  have hnone : rest.takeWhile p = [] := by
    cases rest with
    | nil => rfl
    | cons c rest => rw [List.takeWhile_cons, h c rfl]; rfl
  rw [List.takeWhile_append_of_pos hcs, hnone, List.append_nil]

theorem Stops.dropWhile_append {p : Char → Bool} (h : Stops p rest) (hcs : ∀ c ∈ cs, p c = true) :
    (cs ++ rest).dropWhile p = rest := by
  rw [List.dropWhile_append_of_pos hcs]
  cases rest with
  | nil => rfl
  | cons c rest => rw [List.dropWhile_cons, h c rfl]; rfl

theorem stops_dropWhile (p : Char → Bool) (cs : List Char) : Stops p (cs.dropWhile p) := by
  intro c hc
  have h := cs.head?_dropWhile_not p
  rw [hc] at h
  exact h

theorem noSign_cons {c : Char} (h : c.isDigit = true ∨ c = '.') (cs : List Char) :
    NoSign (c :: cs) := by
  rintro d ⟨⟩
  constructor
  · rintro rfl
    exact absurd h (by decide)
  · rintro rfl
    exact absurd h (by decide)

theorem noSign_of_digits (hne : digits ≠ []) (hdigits : ∀ c ∈ digits, c.isDigit) :
    NoSign digits := by
  cases digits with
  | nil => exact absurd rfl hne
  | cons c digits => exact noSign_cons (.inl (hdigits c List.mem_cons_self)) digits

/-! ## Exponents -/

theorem readExponent?_of_scale (h : Scale scale exponent) :
    readExponent? scale = some exponent := by
  cases h with
  | none => rfl
  | @marked mark sign digits negative hmark hsign hne hdigits =>
      have hsplit := hsign.splitSign_append (noSign_of_digits hne hdigits)
      have hmark : (mark == 'e' || mark == 'E') = true := by
        rcases hmark with rfl | rfl <;> rfl
      have hsome : digits.isEmpty = false := List.isEmpty_eq_false_iff.mpr hne
      simp only [readExponent?, hsplit, hmark, hsome, List.all_eq_true.mpr hdigits, Bool.not_false,
        Bool.and_self, if_true]

theorem scale_of_readExponent? (h : readExponent? scale = some exponent) :
    Scale scale exponent := by
  cases scale with
  | nil =>
      cases h
      exact .none
  | cons mark cs =>
      obtain ⟨sign, hsign, hcs⟩ := exists_sign cs
      simp only [readExponent?] at h
      split at h
      · next hcond =>
        simp only [Bool.and_eq_true, Bool.or_eq_true, beq_iff_eq, Bool.not_eq_true',
          List.isEmpty_eq_false_iff, List.all_eq_true] at hcond
        obtain ⟨⟨hmark, hne⟩, hdigits⟩ := hcond
        cases h
        have hscale := Scale.marked hmark hsign hne hdigits
        rwa [← hcs] at hscale
      · cases h

/-- The exponents are the texts that are read as one. -/
theorem readExponent?_eq_some_iff : readExponent? scale = some exponent ↔ Scale scale exponent :=
  ⟨scale_of_readExponent?, readExponent?_of_scale⟩

theorem Scale.head?_eq (h : Scale scale exponent) : ∀ c ∈ scale.head?, c = 'e' ∨ c = 'E' := by
  cases h with
  | none => nofun
  | marked hmark _ _ _ =>
      rintro c ⟨⟩
      exact hmark

theorem Scale.stops (h : Scale scale exponent) : Stops Char.isDigit scale := by
  intro c hc
  rcases h.head?_eq c hc with rfl | rfl <;> rfl

/-! ## Numbers without a sign -/

/-- The decimal number with these digits before and behind the point, if there are any, and
the exponent that is read. -/
def assemble (whole fraction scale : List Char) : Option Decimal :=
  if whole.isEmpty && fraction.isEmpty then none
  else (readExponent? scale).map fun exponent =>
    ⟨Nat.ofDigitChars 10 (whole ++ fraction) 0, exponent - fraction.length⟩

theorem read?_append (hwhole : ∀ c ∈ whole, c.isDigit) (hrest : Stops Char.isDigit rest)
    (hpoint : ∀ after, rest ≠ '.' :: after) : read? (whole ++ rest) = assemble whole [] rest := by
  rw [read?, hrest.takeWhile_append hwhole, hrest.dropWhile_append hwhole]
  split
  · next heq =>
    split at heq
    · exact absurd rfl (hpoint _)
    · cases heq
      rfl

theorem read?_append_point (hwhole : ∀ c ∈ whole, c.isDigit) (hdigits : ∀ c ∈ digits, c.isDigit)
    (hscale : Stops Char.isDigit scale) :
    read? (whole ++ '.' :: (digits ++ scale)) = assemble whole digits scale := by
  have hstops : Stops Char.isDigit ('.' :: (digits ++ scale)) := by
    rintro c ⟨⟩
    rfl
  have hspan : (digits ++ scale).span Char.isDigit = (digits, scale) := by
    rw [List.span_eq_takeWhile_dropWhile, hscale.takeWhile_append hdigits,
      hscale.dropWhile_append hdigits]
  rw [read?, hstops.takeWhile_append hwhole, hstops.dropWhile_append hwhole]
  simp only [hspan]
  rfl

theorem assemble_eq_some_iff : assemble whole digits scale = some d ↔
    whole ++ digits ≠ [] ∧ ∃ exponent, Scale scale exponent ∧
      ⟨Nat.ofDigitChars 10 (whole ++ digits) 0, exponent - digits.length⟩ = d := by
  simp only [assemble, ← readExponent?_eq_some_iff]
  split <;> simp_all

theorem read?_of_numeral (h : Numeral cs d) : read? cs = some d := by
  cases h with
  | @intro whole fraction scale exponent hwhole hfraction hne hscale =>
      cases hfraction with
      | none =>
          have hpoint : ∀ after, scale ≠ '.' :: after := by
            rintro after rfl
            exact absurd (hscale.head?_eq '.' rfl) (by decide)
          rw [List.nil_append, read?_append hwhole hscale.stops hpoint]
          exact assemble_eq_some_iff.mpr ⟨hne, exponent, hscale, rfl⟩
      | @point digits hdigits =>
          rw [List.cons_append, read?_append_point hwhole hdigits hscale.stops]
          exact assemble_eq_some_iff.mpr ⟨hne, exponent, hscale, rfl⟩

theorem numeral_of_read? (h : read? cs = some d) : Numeral cs d := by
  have hwhole : ∀ c ∈ cs.takeWhile Char.isDigit, c.isDigit = true :=
    List.all_eq_true.mp List.all_takeWhile
  have hstops := stops_dropWhile Char.isDigit cs
  rw [← cs.takeWhile_append_dropWhile (p := Char.isDigit)] at h ⊢
  generalize cs.takeWhile Char.isDigit = whole at *
  generalize cs.dropWhile Char.isDigit = rest at *
  by_cases hpoint : ∃ after, rest = '.' :: after
  · obtain ⟨after, rfl⟩ := hpoint
    have hdigits : ∀ c ∈ after.takeWhile Char.isDigit, c.isDigit = true :=
      List.all_eq_true.mp List.all_takeWhile
    have hscale := stops_dropWhile Char.isDigit after
    rw [← after.takeWhile_append_dropWhile (p := Char.isDigit)] at h ⊢
    generalize after.takeWhile Char.isDigit = digits at *
    rw [read?_append_point hwhole hdigits hscale] at h
    obtain ⟨hne, exponent, hscale, rfl⟩ := assemble_eq_some_iff.mp h
    exact .intro hwhole (.point hdigits) hne hscale
  · rw [read?_append hwhole hstops (not_exists.mp hpoint)] at h
    obtain ⟨hne, exponent, hscale, rfl⟩ := assemble_eq_some_iff.mp h
    exact .intro hwhole .none hne hscale

/-! ## Numbers -/

theorem Numeral.noSign (h : Numeral cs d) : NoSign cs := by
  cases h with
  | @intro whole fraction scale exponent hwhole hfraction hne hscale =>
      cases whole with
      | cons c whole => exact noSign_cons (.inl (hwhole c List.mem_cons_self)) _
      | nil =>
          cases hfraction with
          | none => exact absurd rfl hne
          | point _ => exact noSign_cons (.inr rfl) _

theorem ofChars_of_signed (h : Signed cs negative d) :
    Binary64.ofChars cs = d.nearest negative := by
  cases h with
  | intro hsign hnumeral =>
      simp only [Binary64.ofChars, hsign.splitSign_append hnumeral.noSign,
        read?_of_numeral hnumeral]

/-- What is read as a finite number is a number. -/
theorem exists_signed_of_isFinite (h : (Binary64.ofChars cs).isFinite = true) :
    ∃ negative d, Signed cs negative d := by
  obtain ⟨sign, hsign, hcs⟩ := exists_sign cs
  rw [Binary64.ofChars] at h
  cases hread : read? (splitSign cs).2 with
  | some d =>
      have hsigned := Signed.intro hsign (numeral_of_read? hread)
      rw [← hcs] at hsigned
      exact ⟨_, d, hsigned⟩
  | none =>
      simp only [hread] at h
      split at h
      · cases h
      · cases h

end Stepwise.Decimal
