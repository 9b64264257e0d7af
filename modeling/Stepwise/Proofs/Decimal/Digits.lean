import Stepwise.Proofs.Decimal.Positional
import Mathlib.Algebra.Group.Nat.Defs
import Mathlib.Data.List.DropRight

/-!
# Significant digits

The significant digits of a text are those from the first that is not zero to the last such.
The zeros around them only shift the point, so what all digits make together is a power of
ten times what these make (`exists_ofDigitChars_eq`), and the positional text of a decimal
number has the significant digits of its significand, wherever the point stands
(`significantDigits_positional`).
-/

namespace Stepwise.Decimal

variable {cs digits : List Char}

/-- The digits of a text from the first that is not zero to the last such. -/
def significantDigits (cs : List Char) : List Char :=
  ((cs.filter Char.isDigit).dropWhile (· == '0')).rdropWhile (· == '0')

/-! ## The zeros around them -/

theorem exists_eq_zeros (zeros : List Char) (h : ∀ c ∈ zeros, (c == '0') = true) :
    ∃ k, zeros = List.replicate k '0' :=
  ⟨_, List.eq_replicate_of_mem fun c hc => beq_iff_eq.mp (h c hc)⟩

theorem exists_eq_zeros_append (hdigits : ∀ c ∈ digits, c.isDigit) :
    ∃ j k, digits = List.replicate j '0' ++ (significantDigits digits ++ List.replicate k '0') := by
  obtain ⟨j, hfront⟩ := exists_eq_zeros (digits.takeWhile (· == '0'))
    (List.all_eq_true.mp List.all_takeWhile)
  obtain ⟨k, hback⟩ := exists_eq_zeros ((digits.dropWhile (· == '0')).rtakeWhile (· == '0'))
    (fun c hc => List.mem_rtakeWhile_imp (p := fun c => c == '0') hc)
  refine ⟨j, k, ?_⟩
  rw [significantDigits, List.filter_eq_self.mpr hdigits, ← hfront, ← hback,
    List.rdropWhile_append_rtakeWhile, List.takeWhile_append_dropWhile]

theorem rdropWhile_append_zeros (cs : List Char) (k : Nat) :
    (cs ++ List.replicate k '0').rdropWhile (· == '0') = cs.rdropWhile (· == '0') := by
  induction k with
  | zero => rw [List.replicate_zero, List.append_nil]
  | succ k ih =>
      rw [List.replicate_succ', ← List.append_assoc, List.rdropWhile_concat_pos _ _ _ rfl, ih]

theorem significantDigits_zeros_append (j k : Nat) (cs : List Char) :
    significantDigits (List.replicate j '0' ++ (cs ++ List.replicate k '0')) =
      significantDigits cs := by
  have hzeros : ∀ n, (List.replicate n '0').filter Char.isDigit = List.replicate n '0' :=
    fun n => List.filter_eq_self.mpr isDigit_of_mem_zeros
  have hdrop : ∀ n, (List.replicate n '0').dropWhile (· == '0') = [] := by
    intro n
    refine List.dropWhile_eq_nil_iff.mpr fun c hc => ?_
    rw [List.eq_of_mem_replicate hc]
    rfl
  simp only [significantDigits, List.filter_append, hzeros]
  rw [List.dropWhile_append, hdrop, List.isEmpty_nil, if_pos rfl, List.dropWhile_append, hdrop]
  split
  · next hnil => rw [List.isEmpty_iff.mp hnil]
  · exact rdropWhile_append_zeros _ k

theorem length_significantDigits_le (cs : List Char) :
    (significantDigits cs).length ≤ cs.length :=
  calc (significantDigits cs).length
      ≤ ((cs.filter Char.isDigit).dropWhile (· == '0')).length :=
        (List.rdropWhile_prefix _ _).length_le
    _ ≤ (cs.filter Char.isDigit).length := (List.dropWhile_suffix _).length_le
    _ ≤ cs.length := List.length_filter_le ..

/-! ## The number that digits make -/

theorem ofDigitChars_lt (hdigits : ∀ c ∈ digits, c.isDigit) (start : Nat) :
    Nat.ofDigitChars 10 digits start < (start + 1) * 10 ^ digits.length := by
  induction digits generalizing start with
  | nil =>
      rw [Nat.ofDigitChars_nil, List.length_nil, Nat.pow_zero, Nat.mul_one]
      exact Nat.lt_succ_self start
  | cons c digits ih =>
      obtain ⟨hc, hdigits⟩ := List.forall_mem_cons.mp hdigits
      have hdigit : c.toNat - '0'.toNat ≤ 9 :=
        Nat.sub_le_sub_right (Char.isDigit_iff_toNat.mp hc).2 _
      have hstart : 10 * start + (c.toNat - '0'.toNat) + 1 ≤ (start + 1) * 10 := by omega
      rw [Nat.ofDigitChars_cons, List.length_cons, Nat.pow_succ', ← Nat.mul_assoc]
      exact Nat.lt_of_lt_of_le (ih hdigits _) (Nat.mul_le_mul_right _ hstart)

theorem exists_ofDigitChars_eq (hdigits : ∀ c ∈ digits, c.isDigit) :
    ∃ n k, n < 10 ^ (significantDigits digits).length ∧
      Nat.ofDigitChars 10 digits 0 = n * 10 ^ k := by
  obtain ⟨j, k, hsplit⟩ := exists_eq_zeros_append hdigits
  have hsignificant : ∀ c ∈ significantDigits digits, c.isDigit = true := by
    intro c hc
    refine hdigits c ?_
    rw [hsplit]
    exact List.mem_append_right _ (List.mem_append_left _ hc)
  have hlt := ofDigitChars_lt hsignificant 0
  rw [Nat.zero_add, Nat.one_mul] at hlt
  refine ⟨_, k, hlt, ?_⟩
  conv_lhs => rw [hsplit]
  rw [ofDigitChars_zeros_append, Nat.ofDigitChars_append, Nat.ofDigitChars_replicate_zero,
    Nat.mul_comm]

/-! ## Positional texts -/

theorem significantDigits_take_point_drop (digits : List Char) (k : Nat) :
    significantDigits (digits.take k ++ '.' :: digits.drop k) = significantDigits digits := by
  have hpoint : Char.isDigit '.' ≠ true := by decide
  rw [significantDigits, List.filter_append, List.filter_cons_of_neg hpoint, ← List.filter_append,
    List.take_append_drop, significantDigits]

/-- A positional text has the significant digits of the significand. -/
theorem significantDigits_positional (d : Decimal) :
    significantDigits d.positional = significantDigits (Nat.toDigits 10 d.significand) := by
  obtain ⟨significand, exponent⟩ := d
  cases exponent with
  | ofNat k => exact significantDigits_zeros_append 0 k _
  | negSucc k =>
      have hzeros := significantDigits_zeros_append
        (k + 1 + 1 - (Nat.toDigits 10 significand).length) 0 (Nat.toDigits 10 significand)
      rw [List.replicate_zero, List.append_nil] at hzeros
      exact (significantDigits_take_point_drop _ _).trans hzeros

end Stepwise.Decimal
