import Stepwise.Proofs.Decimal.Coarsest
import Stepwise.Proofs.Decimal.Digits
import Stepwise.Proofs.Decimal.Readable

/-!
# The text of a number is the shortest

Many texts are read as one number: with more digits or fewer, with an exponent, with a point
at its end or none.  They are told apart by their significant digits, which neither the
zeros around them nor the point nor the exponent change.  The text that is written for a finite
number other than zero has as few of them as any text that is read as it, and of those with
as few it is the nearest to the number's exact value.
-/

namespace Stepwise

namespace Decimal

variable {cs digits : List Char} {d : Decimal} {negative : Bool}

/-! ## The digits of a text -/

/-- What stands before the exponent. -/
def mantissa (cs : List Char) : List Char := cs.takeWhile fun c => !(c == 'e' || c == 'E')

/-- How many significant digits a text has. -/
def digitCount (cs : List Char) : Nat := (significantDigits (mantissa cs)).length

/-- No character marks an exponent. -/
def Unmarked (cs : List Char) : Prop := ∀ c ∈ cs, c.isDigit = true ∨ c ∈ ['.', '+', '-']

theorem Unmarked.mantissa_append {scale : List Char} {exponent : Int} (hcs : Unmarked cs)
    (hscale : Scale scale exponent) : mantissa (cs ++ scale) = cs := by
  have hmarked : mantissa scale = [] := by
    cases scale with
    | nil => rfl
    | cons c scale => rcases hscale.head?_eq c rfl with rfl | rfl <;> rfl
  have hunmarked : ∀ c ∈ cs, (!(c == 'e' || c == 'E')) = true := by
    intro c hc
    have hne : c ≠ 'e' ∧ c ≠ 'E' := by
      constructor
      · rintro rfl
        exact absurd (hcs _ hc) (by decide)
      · rintro rfl
        exact absurd (hcs _ hc) (by decide)
    simp [hne]
  rw [mantissa, List.takeWhile_append_of_pos hunmarked]
  exact (congrArg (cs ++ ·) hmarked).trans (List.append_nil cs)

theorem Unmarked.mantissa_eq (hcs : Unmarked cs) : mantissa cs = cs := by
  have h := hcs.mantissa_append .none
  rwa [List.append_nil] at h

theorem Sign.unmarked {sign : List Char} (h : Sign sign negative) : Unmarked sign := by
  cases h with
  | none => nofun
  | plus => exact List.forall_mem_singleton.mpr (by decide)
  | minus => exact List.forall_mem_singleton.mpr (by decide)

theorem unmarked_of_digits (h : ∀ c ∈ digits, c.isDigit) : Unmarked digits :=
  fun c hc => .inl (h c hc)

theorem Fraction.unmarked {fraction : List Char} (h : Fraction fraction) : Unmarked fraction := by
  cases h with
  | none => nofun
  | point hdigits =>
      exact List.forall_mem_cons.mpr ⟨.inr (by decide), unmarked_of_digits hdigits⟩

theorem Unmarked.append {cs' : List Char} (h : Unmarked cs) (h' : Unmarked cs') :
    Unmarked (cs ++ cs') :=
  List.forall_mem_append.mpr ⟨h, h'⟩

theorem Sign.filter_isDigit {sign : List Char} (h : Sign sign negative) :
    sign.filter Char.isDigit = [] := by
  cases h <;> rfl

theorem Fraction.filter_isDigit {fraction : List Char} (h : Fraction fraction) :
    fraction.filter Char.isDigit = fraction.tail := by
  cases h with
  | none => rfl
  | point hdigits => exact List.filter_eq_self.mpr hdigits

theorem Signed.exists_significand_eq (h : Signed cs negative d) :
    ∃ n k, n < 10 ^ digitCount cs ∧ d.significand = n * 10 ^ k := by
  cases h with
  | @intro sign _ _ _ hsign hnumeral =>
      cases hnumeral with
      | @intro whole fraction scale exponent hwhole hfraction _ hscale =>
          let front := sign ++ (whole ++ fraction)
          have hsplit : sign ++ (whole ++ (fraction ++ scale)) = front ++ scale := by
            simp only [front, List.append_assoc]
          have hfront : Unmarked front :=
            hsign.unmarked.append ((unmarked_of_digits hwhole).append hfraction.unmarked)
          have hdigits : front.filter Char.isDigit = whole ++ fraction.tail := by
            rw [List.filter_append, List.filter_append, hsign.filter_isDigit,
              List.filter_eq_self.mpr hwhole, hfraction.filter_isDigit, List.nil_append]
          have hall : ∀ c ∈ whole ++ fraction.tail, c.isDigit = true := by
            rw [← hdigits]
            exact fun c hc => (List.mem_filter.mp hc).2
          have hcount : digitCount (front ++ scale) =
              (significantDigits (whole ++ fraction.tail)).length := by
            rw [digitCount, hfront.mantissa_append hscale, significantDigits, hdigits,
              significantDigits, List.filter_eq_self.mpr hall]
          rw [hsplit, hcount]
          exact exists_ofDigitChars_eq hall

/-! ## Tens in the significand -/

theorem toRat_mul_pow (n k : Nat) (exponent : Int) :
    toRat ⟨n * 10 ^ k, exponent⟩ = toRat ⟨n, exponent + k⟩ := by
  rw [toRat_mk, toRat_mk, zpow_add₀ (by norm_num), zpow_natCast, Nat.cast_mul, Nat.cast_pow,
    Nat.cast_ofNat]
  ring

theorem toRat_expand (d : Decimal) : d.expand.toRat = d.toRat := by
  obtain ⟨significand, exponent⟩ := d
  cases exponent with
  | ofNat k =>
      have htens := toRat_mul_pow significand k 0
      rw [zero_add] at htens
      exact htens
  | negSucc k => rfl

theorem readsAs_of_toRat_eq {magnitude : Nat} {e : Decimal} (hd : readsAs magnitude d = true)
    (h : d.toRat = e.toRat) : readsAs magnitude e = true :=
  readsAs_of_between hd hd h.le h.ge

/-! ## The shortest decimal number -/

section Shortest

variable {tie : Tie} {magnitude n count : Nat} {exponent : Int}

/-- No decimal number that is read back has fewer digits than the shortest one. -/
theorem length_toDigits_shortest_le (hne : magnitude ≠ 0)
    (h : magnitude ≤ Binary64.infiniteMagnitude) (hread : readsAs magnitude ⟨n, exponent⟩ = true)
    (hn : n < 10 ^ count) :
    (Nat.toDigits 10 (shortest tie magnitude).significand).length ≤ count := by
  have hcount : count ≠ 0 := by
    rintro rfl
    have hpos : 0 < n := significand_pos hne hread
    rw [Nat.pow_zero] at hn
    omega
  exact (Nat.length_toDigits_le_iff (by decide) (Nat.pos_of_ne_zero hcount)).mpr
    ((coarsest_shortest tie hne h).significand_lt hne h (magnitudeValue_lt magnitude) hread hn)

theorem abs_sub_toRat_shortest_le (hne : magnitude ≠ 0)
    (h : magnitude < Binary64.infiniteMagnitude) (hread : readsAs magnitude ⟨n, exponent⟩ = true)
    (hn : n < 10 ^ count)
    (hcount : count ≤ (Nat.toDigits 10 (shortest tie magnitude).significand).length) :
    |Binary64.magnitudeValue magnitude - (shortest tie magnitude).toRat| ≤
      |Binary64.magnitudeValue magnitude - toRat ⟨n, exponent⟩| := by
  have hcoarsest := coarsest_shortest tie hne h.le
  obtain _ | k := count
  · have hpos : 0 < n := significand_pos hne hread
    rw [Nat.pow_zero] at hn
    omega
  · refine hcoarsest.abs_sub_toRat_le hne h (magnitudeValue_lt magnitude) hread hn ?_
    by_contra hfew
    have hfew := Nat.lt_of_not_le hfew
    rcases Nat.eq_zero_or_pos k with rfl | hk
    · have hpos := significand_pos hne hcoarsest.reads
      omega
    · have hlength := (Nat.length_toDigits_le_iff (by decide) hk).mpr hfew
      omega

end Shortest

end Decimal

namespace Binary64

variable {x : Binary64}

/-! ## The text that is written -/

theorem standsFor_toChars (h : x.isFinite = true) : Decimal.StandsFor x.toChars x.negative
    (signed x.negative (Decimal.shortest .up x.magnitude).toRat) := by
  have hdenotes := Decimal.denotes_positional (Decimal.shortest .up x.magnitude)
  rw [toChars_of_isFinite h, ← Decimal.toRat_expand]
  cases x.negative with
  | true => exact .negative hdenotes
  | false => exact .positive hdenotes

theorem digitCount_toChars (h : x.isFinite = true) : Decimal.digitCount x.toChars =
    (Decimal.significantDigits
      (Nat.toDigits 10 (Decimal.shortest .up x.magnitude).significand)).length := by
  have hunsigned := (Decimal.denotes_positional (Decimal.shortest .up x.magnitude)).unsigned
  have hunmarked : Decimal.Unmarked (Decimal.shortest .up x.magnitude).positional :=
    fun c hc => (hunsigned.isDigit_or_eq_point c hc).imp_right fun hpoint => by simp [hpoint]
  rw [← Decimal.significantDigits_positional, toChars_of_isFinite h]
  generalize (Decimal.shortest .up x.magnitude).positional = cs at hunmarked ⊢
  cases x.negative with
  | true =>
      have hsign : Decimal.Unmarked (['-'] ++ cs) := Decimal.Sign.minus.unmarked.append hunmarked
      rw [if_pos rfl, Decimal.digitCount, hsign.mantissa_eq]
      rfl
  | false =>
      rw [if_neg Bool.false_ne_true, List.nil_append, Decimal.digitCount, hunmarked.mantissa_eq]

/-- A text that is read as a finite number other than zero is a decimal number that is read
as its magnitude. -/
theorem exists_signed_of_ofText_eq {text : String} (hfinite : x.isFinite = true)
    (h : ofText text = x) : ∃ d, Decimal.Signed text.toList x.negative d ∧
      Decimal.readsAs x.magnitude d = true := by
  rw [← h] at hfinite
  obtain ⟨negative, d, hsigned⟩ := Decimal.exists_signed_of_isFinite hfinite
  have hread : d.nearest negative = x := (Decimal.ofChars_of_signed hsigned).symm.trans h
  have hnegative : negative = x.negative := by rw [← hread, Decimal.negative_nearest]
  refine ⟨d, hnegative ▸ hsigned, ?_⟩
  rw [Decimal.readsAs_iff, ← Decimal.magnitude_nearest negative, hread]

/-- The text of a finite number other than zero is read as it, and no text that is read as it has
fewer significant digits, nor is one with as many nearer to the number's exact value. -/
theorem toText_shortest (hfinite : x.isFinite = true) (hzero : x.isZero = false) :
    ∃ q, Decimal.StandsFor x.toText.toList x.negative q ∧ ofText x.toText = x ∧
      ∀ text, ofText text = x → ∃ d, Decimal.Signed text.toList x.negative d ∧
        Decimal.digitCount x.toText.toList ≤ Decimal.digitCount text.toList ∧
        (Decimal.digitCount x.toText.toList = Decimal.digitCount text.toList →
          |q - x.value| ≤ |signed x.negative d.toRat - x.value|) := by
  have hne : x.magnitude ≠ 0 := of_decide_eq_false hzero
  have hlt : x.magnitude < infiniteMagnitude := of_decide_eq_true hfinite
  have hnan := isNaN_eq_false_of_isFinite hfinite
  rw [toText, ofText, String.toList_ofList, value_eq]
  refine ⟨_, standsFor_toChars hfinite, ofChars_toChars x hnan, ?_⟩
  intro text htext
  obtain ⟨d, hsigned, hread⟩ := exists_signed_of_ofText_eq hfinite htext
  refine ⟨d, hsigned, ?_⟩
  -- the same number with its significant digits only
  obtain ⟨n, k, hn, hsignificand⟩ := hsigned.exists_significand_eq
  have hvalue : d.toRat = Decimal.toRat ⟨n, d.exponent + k⟩ := by
    rw [← Decimal.toRat_mul_pow, ← hsignificand]
  have hread := Decimal.readsAs_of_toRat_eq hread hvalue
  have hcount := Decimal.length_significantDigits_le
    (Nat.toDigits 10 (Decimal.shortest .up x.magnitude).significand)
  rw [← digitCount_toChars hfinite] at hcount
  constructor
  · exact hcount.trans (Decimal.length_toDigits_shortest_le hne hlt.le hread hn)
  · intro hequal
    rw [hequal] at hcount
    rw [abs_signed_sub_signed, abs_signed_sub_signed, abs_sub_comm, abs_sub_comm d.toRat, hvalue]
    exact Decimal.abs_sub_toRat_shortest_le hne hlt hread hn hcount

/-- The number nearest to three tenths, which is not three tenths. -/
theorem toText_shortest_three_tenths :
    (ofBits 0x3fd3333333333333).isFinite = true ∧ (ofBits 0x3fd3333333333333).isZero = false ∧
      (ofBits 0x3fd3333333333333).toText = "0.3" ∧
      ∃ q, Decimal.StandsFor (ofBits 0x3fd3333333333333).toText.toList false q ∧
        ofText (ofBits 0x3fd3333333333333).toText = ofBits 0x3fd3333333333333 ∧
        ∀ text, ofText text = ofBits 0x3fd3333333333333 →
          ∃ d, Decimal.Signed text.toList false d ∧
            Decimal.digitCount (ofBits 0x3fd3333333333333).toText.toList ≤
              Decimal.digitCount text.toList ∧
            (Decimal.digitCount (ofBits 0x3fd3333333333333).toText.toList =
                Decimal.digitCount text.toList →
              |q - (ofBits 0x3fd3333333333333).value| ≤
                |signed false d.toRat - (ofBits 0x3fd3333333333333).value|) :=
  ⟨by decide, by decide, by decide +kernel, toText_shortest (by decide) (by decide)⟩

end Binary64
end Stepwise
