import Stepwise.Proofs.Token.Places
import Stepwise.Proofs.Token.RoundTrip

/-!
# Blanks in a text

A blank ends the number token in progress and comes between two `*`; otherwise it is
looked through.  So blanks can be put in anywhere in a text, or taken out, unless they
part what belongs together: the characters of a number token, the two `*` of a power, or
a `-` and what touches it, which may be a digit that makes it a sign.

Nothing is asked of the text, which need not be an expression.  The statement compares two
runs that are in the same state at the blanks (`ofChars` in its place), and what is left to
show is that neither of them looked past that place before it got there: a `-` looks at the
next character only, and so does a `*`.
-/

namespace Stepwise

open Lexeme

/-- The two parts of a text do not hang together where they meet. -/
structure ComeApart (front back : List Char) : Prop where
  minus : front.getLast? ≠ some '-'
  stars : ¬(front.getLast? = some '*' ∧ back.head? = some '*')
  texts : ∀ c ∈ front.getLast?, ∀ d ∈ back.head?, ¬(IsText c ∧ IsText d)

variable {b : Bindings} {c : Char} {before run front gap back cs cs' : List Char}

theorem ComeApart.tail (h : ComeApart (c :: front) back) : ComeApart front back := by
  cases front with
  | nil => exact ⟨nofun, (nomatch ·.1), fun _ hc => nomatch hc⟩
  | cons d front =>
      obtain ⟨hminus, hstars, htexts⟩ := h
      rw [List.getLast?_cons_cons] at hminus hstars htexts
      exact ⟨hminus, hstars, htexts⟩

/-- Whether a character belongs to a number token depends on what follows only if it is a
`-`, and then on the next character only. -/
theorem isOfNumber_congr (h : c = '-' → cs.head? = cs'.head?) :
    isOfNumber before c cs = isOfNumber before c cs' := by
  rcases isText_or_mem_blanks_or_symbol c with hc | hc | ⟨s, rfl⟩
  · rw [isOfNumber_text hc, isOfNumber_text hc]
  · rw [isOfNumber_blank hc, isOfNumber_blank hc]
  · rw [isOfNumber_symbol, isOfNumber_symbol]
    by_cases hs : s = .minus
    · subst hs
      rw [isSign, isSign, h rfl]
    · rw [beq_eq_false_iff_ne.mpr hs, Bool.false_and, Bool.false_and]

theorem numberAfter_of_isText (hc : IsText c) (h : ∀ d ∈ back.head?, ¬IsText d) :
    numberAfter (c :: before) back = false := by
  cases back with
  | nil => rfl
  | cons d back =>
      show isOfNumber (c :: before) d back = false
      rcases isText_or_mem_blanks_or_symbol d with hd | hd | ⟨s, rfl⟩
      · exact absurd hd (h d rfl)
      · exact isOfNumber_blank hd
      · rw [isOfNumber_symbol, ← Context.takesSign_behind, Context.behind_text hc]
        exact Bool.and_false _

theorem ComeApart.isOfNumber_gap (h : ComeApart (c :: front) back) :
    isOfNumber before c (front ++ (gap ++ back)) = isOfNumber before c (front ++ back) := by
  refine isOfNumber_congr ?_
  rintro rfl
  cases front with
  | nil => exact absurd rfl h.minus
  | cons d front => rfl

theorem ComeApart.numberAfter_eq_false (h : ComeApart [c] back)
    (hc : isOfNumber before c cs = true) : numberAfter (c :: before) back = false := by
  rcases isText_or_mem_blanks_or_symbol c with htext | hblank | ⟨s, rfl⟩
  · exact numberAfter_of_isText htext fun d hd hd' => h.texts c rfl d hd ⟨htext, hd'⟩
  · rw [isOfNumber_blank hblank] at hc
    cases hc
  · -- of the symbols only a `-` belongs to a number token, and the front part ends with none
    rw [isOfNumber_symbol, Bool.and_eq_true, beq_iff_eq] at hc
    obtain ⟨rfl, _⟩ := hc
    exact absurd rfl h.minus

theorem ComeApart.append_ne_star (h : ComeApart ('*' :: front) back)
    (hgap : ∀ c ∈ gap, c ∈ blanks) (hfront : ∀ rest, front ≠ '*' :: rest) (rest : List Char) :
    front ++ (gap ++ back) ≠ '*' :: rest := by
  intro heq
  cases front with
  | cons d front => exact hfront front (by rw [(List.cons.inj heq).1])
  | nil =>
      cases gap with
      | cons d gap =>
          have hd := hgap d List.mem_cons_self
          rw [(List.cons.inj heq).1] at hd
          exact absurd hd (by decide)
      | nil =>
          have heq : back = '*' :: rest := heq
          exact h.stars ⟨rfl, by rw [heq]; rfl⟩

namespace Token

/-- Blanks between two parts that come apart change nothing, in whatever state the front
part is read.  By induction along the front part; where it ends, either no number token is
in progress or the back part does not go on with it. -/
theorem ofChars_append_gap {front before run : List Char} (h : ComeApart front back)
    (hgap : ∀ c ∈ gap, c ∈ blanks)
    (hrun : front = [] → run = [] ∨ numberAfter before back = false) :
    ofChars b (.behind before) run (front ++ (gap ++ back)) =
      ofChars b (.behind before) run (front ++ back) := by
  match front with
  | [] =>
      rcases hrun rfl with rfl | hback
      · exact ofChars_gap hgap
      · rw [List.nil_append, List.nil_append, ofChars_of_numberAfter_eq_false hback]
        exact ofChars_gap_run hgap (fun _ => ofChars_of_numberAfter_eq_false hback) run
  | c :: front =>
      have hsame : isOfNumber before c (front ++ (gap ++ back)) =
          isOfNumber before c (front ++ back) := h.isOfNumber_gap
      rw [List.cons_append, List.cons_append]
      cases hc : isOfNumber before c (front ++ back) with
      | true =>
          rw [ofChars_ofNumber (hsame.trans hc), ofChars_ofNumber hc]
          refine ofChars_append_gap h.tail hgap ?_
          rintro rfl
          exact .inr (h.numberAfter_eq_false hc)
      | false =>
          rcases isText_or_mem_blanks_or_symbol c with htext | hblank | ⟨s, rfl⟩
          · rw [isOfNumber_text htext] at hc
            cases hc
          · rw [ofChars_blank hblank, ofChars_blank hblank, ← Context.behind_blank hblank,
              ofChars_append_gap h.tail hgap fun _ => .inl rfl]
          · by_cases hpower : s = .star ∧ ∃ rest, front = '*' :: rest
            · -- two characters are read at once, and the place between them is passed over
              obtain ⟨rfl, rest, rfl⟩ := hpower
              have hrest := @ofChars_append_gap rest ('*' :: '*' :: before) [] h.tail.tail hgap
                fun _ => .inl rfl
              rw [show Symbol.star.char = '*' from rfl, List.cons_append, List.cons_append,
                ofChars_power, ofChars_power]
              exact congrArg (ofRun b run ++ operator .power :: ·) hrest
            · have hstar : s = .star → ∀ rest, front ≠ '*' :: rest :=
                fun hs rest hfront => hpower ⟨hs, rest, hfront⟩
              have hne : ∀ gap : List Char, (∀ c ∈ gap, c ∈ blanks) → s = .star →
                  ∀ rest, front ++ (gap ++ back) ≠ '*' :: rest := by
                rintro gap hgap rfl
                exact h.append_ne_star hgap (hstar rfl)
              rw [ofChars_symbol_behind s (hsame.trans hc) (hne gap hgap),
                ofChars_symbol_behind s hc (hne [] fun _ hd => absurd hd List.not_mem_nil),
                ofChars_append_gap h.tail hgap fun _ => .inl rfl]
termination_by front.length

/-- Blanks may be put in wherever two parts of a text come apart, whatever the text and
whatever letters are bound. -/
theorem ofText_append_blanks {u v w : String} (h : ComeApart u.toList v.toList)
    (hw : ∀ c ∈ w.toList, c ∈ blanks) (b : Bindings) :
    ofText b (u ++ w ++ v) = ofText b (u ++ v) := by
  rw [ofText_eq, ofText_eq, String.toList_append, String.toList_append, String.toList_append,
    List.append_assoc]
  exact @ofChars_append_gap b _ _ _ [] [] h hw fun _ => .inl rfl

/-- Blanks before a sign, in a text that is no expression. -/
theorem ofText_append_blanks_sign :
    ComeApart "(2*".toList "-3)--x".toList ∧ (∀ c ∈ "\t ".toList, c ∈ blanks) ∧
      Structure.fault? (ofText .empty "(2*-3)--x") ≠ none ∧
      ofText .empty "(2*\t -3)--x" = ofText .empty "(2*-3)--x" := by
  have happart : ComeApart "(2*".toList "-3)--x".toList := by
    refine ⟨by decide, by decide, ?_⟩
    rintro c hc d _ ⟨⟨hnone, _⟩, _⟩
    obtain rfl : '*' = c := Option.some_inj.mp hc
    exact hnone (char_mem_symbols .star)
  have hblanks : ∀ c ∈ "\t ".toList, c ∈ blanks := by simp [blanks]
  have hfault : Structure.fault? (ofText .empty "(2*-3)--x") ≠ none := by decide
  exact ⟨happart, hblanks, hfault, ofText_append_blanks happart hblanks .empty⟩

end Token
end Stepwise
