import Stepwise.Text.WhiteSpace

/-!
# Trimming

A text is some white space, then a text that has none at its ends, then white space.  The
one in the middle is determined by that, and trimming finds it.  Which characters are white
space is listed here; the list and the ranges of code points that trimming goes by are the
same.
-/

namespace Stepwise.Text

/-- The characters with the Unicode property White_Space. -/
def whiteSpace : List Char :=
  ['\t', '\n', '\x0b', '\x0c', '\r', ' ', '\u0085', '\u00a0', '\u1680', '\u2000', '\u2001',
    '\u2002', '\u2003', '\u2004', '\u2005', '\u2006', '\u2007', '\u2008', '\u2009', '\u200a',
    '\u2028', '\u2029', '\u202f', '\u205f', '\u3000']

/-- Between white space at both ends of the text there is `cs`, which itself neither begins
nor ends with white space. -/
structure Trims (text cs : List Char) : Prop where
  exists_around : ∃ front back, text = front ++ (cs ++ back) ∧
    (∀ c ∈ front, c ∈ whiteSpace) ∧ ∀ c ∈ back, c ∈ whiteSpace
  head : ∀ c ∈ cs.head?, c ∉ whiteSpace
  last : ∀ c ∈ cs.getLast?, c ∉ whiteSpace

variable {c : Char} {text front cs : List Char}

theorem isWhiteSpace_iff : isWhiteSpace c = true ↔ c ∈ whiteSpace := by
  simp only [isWhiteSpace, whiteSpace, List.mem_cons, List.not_mem_nil, or_false,
    ← Char.toNat_inj, Bool.or_eq_true, Bool.and_eq_true, decide_eq_true_eq, beq_iff_eq,
    Char.reduceToNat]
  omega

theorem trimStart_append (h : ∀ c ∈ front, c ∈ whiteSpace) :
    trimStart (front ++ cs) = trimStart cs :=
  List.dropWhile_append_of_pos fun c hc => isWhiteSpace_iff.mpr (h c hc)

theorem trimStart_eq_nil (h : ∀ c ∈ cs, c ∈ whiteSpace) : trimStart cs = [] := by
  rw [← List.append_nil cs, trimStart_append h]
  rfl

theorem trimStart_eq_self (h : ∀ c ∈ cs.head?, c ∉ whiteSpace) : trimStart cs = cs := by
  cases cs with
  | nil => rfl
  | cons c cs => rw [trimStart, List.dropWhile_cons, if_neg (mt isWhiteSpace_iff.mp (h c rfl))]

theorem head?_trimStart (cs : List Char) : ∀ c ∈ (trimStart cs).head?, c ∉ whiteSpace := by
  intro c hc
  have hdropped := List.head?_dropWhile_not isWhiteSpace cs
  rw [trimStart] at hc
  rw [hc] at hdropped
  exact mt isWhiteSpace_iff.mpr (Bool.eq_false_iff.mp hdropped)

theorem exists_trimStart (text : List Char) :
    ∃ front, text = front ++ trimStart text ∧ ∀ c ∈ front, c ∈ whiteSpace :=
  ⟨text.takeWhile isWhiteSpace, List.takeWhile_append_dropWhile.symm,
    fun c hc => isWhiteSpace_iff.mp (List.all_eq_true.mp List.all_takeWhile c hc)⟩

theorem trims_trim (text : List Char) : Trims text (trim text) := by
  obtain ⟨front, hfront, hwhite⟩ := exists_trimStart text
  obtain ⟨back, hback, hwhite'⟩ := exists_trimStart (trimStart text).reverse
  have hmiddle : trimStart text = trim text ++ back.reverse := by
    rw [trim, ← List.reverse_append, ← hback, List.reverse_reverse]
  refine ⟨⟨front, back.reverse, ?_, hwhite, ?_⟩, ?_, ?_⟩
  · rw [← hmiddle]
    exact hfront
  · exact fun c hc => hwhite' c (List.mem_reverse.mp hc)
  · intro c hc
    refine head?_trimStart text c ?_
    rw [hmiddle, List.head?_append, Option.mem_def.mp hc]
    rfl
  · intro c hc
    rw [trim, List.getLast?_reverse] at hc
    exact head?_trimStart _ c hc

/-- Trimming finds the text between the white space, and there is no other. -/
theorem trims_iff : Trims text cs ↔ cs = trim text := by
  constructor
  · rintro ⟨⟨front, back, rfl, hfront, hback⟩, hhead, hlast⟩
    have hreverse : ∀ c ∈ cs.reverse.head?, c ∉ whiteSpace := by
      rwa [List.head?_reverse]
    have hback' : ∀ c ∈ back.reverse, c ∈ whiteSpace :=
      fun c hc => hback c (List.mem_reverse.mp hc)
    have hstart : trimStart (cs ++ back) = cs ++ back ∨ cs = [] := by
      cases cs with
      | nil => exact .inr rfl
      | cons c cs => exact .inl (trimStart_eq_self hhead)
    rw [trim, trimStart_append hfront]
    rcases hstart with hstart | rfl
    · rw [hstart, List.reverse_append, trimStart_append hback', trimStart_eq_self hreverse,
        List.reverse_reverse]
    · rw [List.nil_append, trimStart_eq_nil hback]
      rfl
  · rintro rfl
    exact trims_trim text

theorem trim_around {back inner : List Char} {first last : Char}
    (hfront : ∀ c ∈ front, c ∈ whiteSpace) (hback : ∀ c ∈ back, c ∈ whiteSpace)
    (hfirst : first ∉ whiteSpace) (hlast : last ∉ whiteSpace) :
    trim (front ++ (first :: (inner ++ [last]) ++ back)) = first :: (inner ++ [last]) := by
  refine (trims_iff.mp ⟨⟨front, back, rfl, hfront, hback⟩, ?_, ?_⟩).symm
  · rintro c ⟨⟩
    exact hfirst
  · rw [← List.cons_append, List.getLast?_concat]
    rintro c ⟨⟩
    exact hlast

end Stepwise.Text
