import Stepwise.Decimal.Literal

/-!
# The language of literals

A literal is read off its shape: a sign that may be missing, digits, and a
fraction that may be missing, `-?[0-9]+(\.[0-9]*)?`.  The main statement is that
`isLiteral`, which only splits a text at the end of its first digits, accepts
this language and no other text.
-/

namespace Stepwise.Decimal

/-- What may follow the whole part of a literal: nothing, or a point and any
number of digits. -/
inductive Fraction : List Char → Prop
  | none : Fraction []
  | point {digits : List Char} : (∀ c ∈ digits, c.isDigit) → Fraction ('.' :: digits)

/-- A literal without its sign. -/
inductive Unsigned : List Char → Prop
  | intro {whole fraction : List Char} : whole ≠ [] → (∀ c ∈ whole, c.isDigit) →
      Fraction fraction → Unsigned (whole ++ fraction)

/-- The texts of the shape `-?[0-9]+(\.[0-9]*)?`. -/
inductive Literal : List Char → Prop
  | positive {cs : List Char} : Unsigned cs → Literal cs
  | negative {cs : List Char} : Unsigned cs → Literal ('-' :: cs)

/-! ## Splitting at the end of the digits -/

theorem Fraction.takeWhile_isDigit {fraction : List Char} (h : Fraction fraction) :
    fraction.takeWhile Char.isDigit = [] := by
  cases h with
  | none => rfl
  | point _ => rfl

theorem Fraction.dropWhile_isDigit {fraction : List Char} (h : Fraction fraction) :
    fraction.dropWhile Char.isDigit = fraction := by
  cases h with
  | none => rfl
  | point _ => rfl

theorem Fraction.takeWhile_append {whole fraction : List Char} (h : Fraction fraction)
    (hdigits : ∀ c ∈ whole, c.isDigit) : (whole ++ fraction).takeWhile Char.isDigit = whole := by
  rw [List.takeWhile_append_of_pos hdigits, h.takeWhile_isDigit, List.append_nil]

theorem Fraction.dropWhile_append {whole fraction : List Char} (h : Fraction fraction)
    (hdigits : ∀ c ∈ whole, c.isDigit) :
    (whole ++ fraction).dropWhile Char.isDigit = fraction := by
  rw [List.dropWhile_append_of_pos hdigits, h.dropWhile_isDigit]

theorem Unsigned.exists_cons {cs : List Char} (h : Unsigned cs) :
    ∃ c rest, cs = c :: rest ∧ c.isDigit = true := by
  cases h with
  | @intro whole fraction hne hdigits _ =>
      cases whole with
      | nil => exact absurd rfl hne
      | cons c whole => exact ⟨c, whole ++ fraction, rfl, hdigits c List.mem_cons_self⟩

theorem Unsigned.isDigit_or_eq_point {cs : List Char} (h : Unsigned cs) :
    ∀ c ∈ cs, c.isDigit = true ∨ c = '.' := by
  cases h with
  | intro _ hwhole hfraction =>
      refine List.forall_mem_append.mpr ⟨fun c hc => .inl (hwhole c hc), ?_⟩
      cases hfraction with
      | none => exact fun _ hc => absurd hc List.not_mem_nil
      | point hdigits =>
          exact List.forall_mem_cons.mpr ⟨.inr rfl, fun c hc => .inl (hdigits c hc)⟩

/-! ## The check accepts the language -/

theorem isUnsignedLiteral_of_unsigned {cs : List Char} (h : Unsigned cs) :
    isUnsignedLiteral cs = true := by
  cases h with
  | @intro whole fraction hne hdigits hf =>
      rw [isUnsignedLiteral, hf.takeWhile_append hdigits, hf.dropWhile_append hdigits]
      cases whole with
      | nil => exact absurd rfl hne
      | cons c whole =>
          cases hf with
          | none => rfl
          | point hall => exact List.all_eq_true.mpr hall

theorem unsigned_of_isUnsignedLiteral {cs : List Char} (h : isUnsignedLiteral cs = true) :
    Unsigned cs := by
  have hdigits : ∀ c ∈ cs.takeWhile Char.isDigit, c.isDigit = true :=
    List.all_eq_true.mp List.all_takeWhile
  rw [← cs.takeWhile_append_dropWhile (p := Char.isDigit)]
  simp only [isUnsignedLiteral] at h
  split at h
  · cases h
  · next hdrop hne =>
    rw [hdrop]
    exact .intro hne hdigits .none
  · next fraction hdrop hne =>
    rw [hdrop]
    exact .intro hne hdigits (.point (List.all_eq_true.mp h))
  · cases h

theorem isUnsignedLiteral_iff {cs : List Char} : isUnsignedLiteral cs = true ↔ Unsigned cs :=
  ⟨unsigned_of_isUnsignedLiteral, isUnsignedLiteral_of_unsigned⟩

theorem isLiteral_eq_of_unsigned {cs : List Char} (h : Unsigned cs) :
    isLiteral cs = isUnsignedLiteral cs := by
  obtain ⟨c, rest, rfl, hc⟩ := h.exists_cons
  unfold isLiteral
  split
  · next heq =>
    cases heq
    exact absurd hc (by decide)
  · rfl

/-- The check accepts exactly the texts of the shape `-?[0-9]+(\.[0-9]*)?`. -/
theorem isLiteral_iff {cs : List Char} : isLiteral cs = true ↔ Literal cs := by
  constructor
  · intro h
    unfold isLiteral at h
    split at h
    · exact .negative (isUnsignedLiteral_iff.mp h)
    · exact .positive (isUnsignedLiteral_iff.mp h)
  · intro h
    cases h with
    | positive h => rw [isLiteral_eq_of_unsigned h]; exact isUnsignedLiteral_iff.mpr h
    | negative h => exact isUnsignedLiteral_iff.mpr h

end Stepwise.Decimal
