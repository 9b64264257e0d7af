import Stepwise.Proofs.Token.Characters

/-!
# Where number tokens stand in a text

What a character is to tokenizing can be told from where it stands: from the text before
it, read backwards, and the text after it.  That goes for a `-`, which is a sign or
subtracts, and so for all characters of number tokens; no state is handed on from one
character to the next.

The two views meet in `Context.behind`: what tokenizing remembers of a text is read off
its last character that is not a blank.
-/

namespace Stepwise

open Lexeme

/-! ## Characters in their places -/

/-- The `-` between the two parts of a text is a sign: nothing but blanks stands before
it, or the last character before it, blanks aside, is a symbol other than `)`, and a digit
touches it.  The part before is read backwards. -/
def isSign (before after : List Char) : Bool :=
  match before.dropWhile (· ∈ blanks) with
  | [] => true
  | c :: _ => decide (c ∈ symbols ∧ c ≠ ')') && after.head?.any Char.isDigit

/-- The character between the two parts belongs to a number token: it is a sign, or
neither a symbol nor a blank. -/
def isOfNumber (before : List Char) (c : Char) (after : List Char) : Bool :=
  if c = '-' then isSign before after else decide (c ∉ symbols ∧ c ∉ blanks)

/-- The character right before the place belongs to a number token. -/
def numberBefore (before after : List Char) : Bool :=
  match before with
  | [] => false
  | c :: before => isOfNumber before c after

/-- The character right after the place belongs to a number token. -/
def numberAfter (before after : List Char) : Bool :=
  match after with
  | [] => false
  | c :: after => isOfNumber before c after

/-- The context that a text leaves behind, read backwards. -/
def Context.behind (before : List Char) : Context :=
  match before.dropWhile (· ∈ blanks) with
  | [] => .start
  | c :: _ =>
      match Symbol.ofChar? c with
      | some s => .after s
      | none => .operand

variable {c : Char} {cs before run : List Char} {b : Bindings}

theorem isOfNumber_text (h : IsText c) : isOfNumber before c cs = true := by
  have hminus : c ≠ '-' := by
    rintro rfl
    exact h.1 (by decide)
  rw [isOfNumber, if_neg hminus]
  exact decide_eq_true h

theorem isOfNumber_blank (h : c ∈ blanks) : isOfNumber before c cs = false := by
  have hminus : c ≠ '-' := by
    rintro rfl
    exact not_mem_blanks_char .minus h
  rw [isOfNumber, if_neg hminus]
  exact decide_eq_false fun hc => hc.2 h

theorem isOfNumber_symbol (s : Symbol) :
    isOfNumber before s.char cs = (s == .minus && isSign before cs) := by
  have hsymbol : decide (s.char ∉ symbols ∧ s.char ∉ blanks) = false :=
    decide_eq_false fun hc => hc.1 (char_mem_symbols s)
  rw [isOfNumber, hsymbol]
  cases s <;> rfl

/-! ## The context behind a text -/

namespace Context

theorem behind_text (h : IsText c) : behind (c :: before) = .operand := by
  simp [behind, h.2, h.ofChar?_eq_none]

theorem behind_blank (h : c ∈ blanks) : behind (c :: before) = behind before := by
  simp [behind, h]

theorem behind_symbol (s : Symbol) : behind (s.char :: before) = .after s := by
  simp [behind, not_mem_blanks_char]

theorem takesSign_after (s : Symbol) :
    (after s).takesSign (scan cs) =
      (decide (s.char ∈ symbols ∧ s.char ≠ ')') && cs.head?.any Char.isDigit) := by
  rw [← digitNext_scan]
  cases s <;> rfl

/-- What the context and the lexemes say about a `-` is what its place says. -/
theorem takesSign_behind : (behind before).takesSign (scan cs) = isSign before cs := by
  simp only [behind, isSign]
  cases before.dropWhile (· ∈ blanks) with
  | nil => rfl
  | cons c before =>
      by_cases hc : c ∈ symbols
      · obtain ⟨s, rfl⟩ := mem_symbols_iff.mp hc
        dsimp only
        rw [Symbol.ofChar?_char]
        exact takesSign_after s
      · simp [hc, ofChar?_eq_none_iff.mpr hc, takesSign]

end Context

/-! ## The tokens of a text in its place -/

namespace Token

theorem ofChars_ofNumber (h : isOfNumber before c cs = true) :
    ofChars b (.behind before) run (c :: cs) =
      ofChars b (.behind (c :: before)) (run ++ [c]) cs := by
  rcases isText_or_mem_blanks_or_symbol c with hc | hc | ⟨s, rfl⟩
  · rw [ofChars_text hc, Context.behind_text hc]
  · rw [isOfNumber_blank hc] at h
    cases h
  · rw [isOfNumber_symbol, Bool.and_eq_true, beq_iff_eq] at h
    obtain ⟨rfl, hsign⟩ := h
    rw [Context.behind_symbol]
    exact ofChars_sign (Context.takesSign_behind.trans hsign)

/-- A symbol in its place: what decides whether it is read by itself is whether it belongs
to a number token, and for a `*` the next character. -/
theorem ofChars_symbol_behind (s : Symbol) (hnot : isOfNumber before s.char cs = false)
    (hstar : s = .star → ∀ rest, cs ≠ '*' :: rest) :
    ofChars b (.behind before) run (s.char :: cs) =
      ofRun b run ++ ofSymbol s :: ofChars b (.behind (s.char :: before)) [] cs := by
  rw [Context.behind_symbol]
  refine ofChars_symbol s ?_ hstar
  rintro rfl
  rw [isOfNumber_symbol] at hnot
  exact Context.takesSign_behind.trans hnot

theorem ofChars_of_numberAfter_eq_false (h : numberAfter before cs = false) :
    ofChars b (.behind before) run cs = ofRun b run ++ ofChars b (.behind before) [] cs := by
  cases cs with
  | nil => rw [ofChars_nil, ofChars_nil, ofRun_nil, List.append_nil]
  | cons c cs =>
      have h : isOfNumber before c cs = false := h
      rcases isText_or_mem_blanks_or_symbol c with hc | hc | ⟨s, rfl⟩
      · rw [isOfNumber_text hc] at h
        cases h
      · rw [ofChars_blank hc, @ofChars_blank b _ [] cs c hc, ofRun_nil, List.nil_append]
      · by_cases hpower : s = .star ∧ ∃ rest, cs = '*' :: rest
        · obtain ⟨rfl, rest, rfl⟩ := hpower
          rw [show Symbol.star.char = '*' from rfl, ofChars_power, ofChars_power, ofRun_nil,
            List.nil_append]
        · have hstar : s = .star → ∀ rest, cs ≠ '*' :: rest :=
            fun hs rest hcs => hpower ⟨hs, rest, hcs⟩
          rw [ofChars_symbol_behind s h hstar, ofChars_symbol_behind s h hstar, ofRun_nil,
            List.nil_append]

end Token
end Stepwise
