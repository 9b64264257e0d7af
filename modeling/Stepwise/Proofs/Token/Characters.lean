import Stepwise.Token.FromText

/-!
# Tokens, character by character

Tokenizing goes over the lexemes of a text.  `Token.ofChars` is the same
recursion seen from the characters: what it does with a text that begins with a
blank, with a character of a text, with a sign and with each symbol is one
equation each, and the runs that lexemes are made of no longer show.

Blanks and symbols are lists of characters here, and a character of a text is one
that is in neither of them.
-/

namespace Stepwise

/-! ## The characters of lexemes -/

namespace Lexeme

/-- The characters that are blanks: space, tab, carriage return, line feed and
form feed. -/
def blanks : List Char := [' ', '\t', '\r', '\n', '\x0c']

/-- The characters that are lexemes by themselves. -/
def symbols : List Char := ['+', '-', '*', '/', '%', '(', ')']

/-- The characters that texts are made of. -/
def IsText (c : Char) : Prop := c ∉ symbols ∧ c ∉ blanks

variable {c : Char} {cs : List Char}

theorem mem_blanks_iff :
    c ∈ blanks ↔ c = ' ' ∨ c = '\t' ∨ c = '\r' ∨ c = '\n' ∨ c = '\x0c' := by
  simp [blanks]

theorem isBlank_of_mem_blanks (h : c ∈ blanks) : isBlank c = true := by
  rcases mem_blanks_iff.mp h with rfl | rfl | rfl | rfl | rfl <;> rfl

theorem mem_blanks_of_isBlank (h : isBlank c = true) : c ∈ blanks := by
  simp only [isBlank, Bool.or_eq_true, beq_iff_eq] at h
  rw [mem_blanks_iff]
  rcases h with (((h | h) | h) | h) | h <;> simp [h]

theorem isBlank_char (s : Symbol) : isBlank s.char = false := by
  cases s <;> rfl

theorem char_mem_symbols (s : Symbol) : s.char ∈ symbols := by
  cases s <;> decide

theorem mem_symbols_iff : c ∈ symbols ↔ ∃ s : Symbol, c = s.char := by
  constructor
  · intro h
    simp only [symbols, List.mem_cons, List.not_mem_nil, or_false] at h
    rcases h with h | h | h | h | h | h | h
    · exact ⟨.plus, h⟩
    · exact ⟨.minus, h⟩
    · exact ⟨.star, h⟩
    · exact ⟨.slash, h⟩
    · exact ⟨.percent, h⟩
    · exact ⟨.opening, h⟩
    · exact ⟨.closing, h⟩
  · rintro ⟨s, rfl⟩
    exact char_mem_symbols s

theorem ofChar?_eq_none_iff : Symbol.ofChar? c = none ↔ c ∉ symbols := by
  rw [mem_symbols_iff]
  constructor
  · rintro h ⟨s, rfl⟩
    rw [Symbol.ofChar?_char] at h
    cases h
  · intro h
    cases hs : Symbol.ofChar? c with
    | none => rfl
    | some s => exact absurd ⟨s, Symbol.ofChar?_eq_some_iff.mp hs⟩ h

theorem not_mem_symbols_of_mem_blanks (h : c ∈ blanks) : c ∉ symbols := by
  rw [mem_symbols_iff]
  rintro ⟨s, rfl⟩
  have hblank := isBlank_of_mem_blanks h
  rw [isBlank_char] at hblank
  cases hblank

theorem not_mem_blanks_char (s : Symbol) : s.char ∉ blanks :=
  fun h => not_mem_symbols_of_mem_blanks h (char_mem_symbols s)

theorem ofChar?_of_mem_blanks (h : c ∈ blanks) : Symbol.ofChar? c = none :=
  ofChar?_eq_none_iff.mpr (not_mem_symbols_of_mem_blanks h)

/-- A character is one of a text, a blank or a symbol. -/
theorem isText_or_mem_blanks_or_symbol (c : Char) :
    IsText c ∨ c ∈ blanks ∨ ∃ s : Symbol, c = s.char := by
  by_cases hsymbol : c ∈ symbols
  · exact .inr (.inr (mem_symbols_iff.mp hsymbol))
  · by_cases hblank : c ∈ blanks
    · exact .inr (.inl hblank)
    · exact .inl ⟨hsymbol, hblank⟩

theorem IsText.ofChar?_eq_none (h : IsText c) : Symbol.ofChar? c = none :=
  ofChar?_eq_none_iff.mpr h.1

theorem IsText.isBlank_eq_false (h : IsText c) : isBlank c = false :=
  Bool.eq_false_iff.mpr fun hblank => h.2 (mem_blanks_of_isBlank hblank)

theorem isText_of_isDigit (h : c.isDigit = true) : IsText c := by
  rcases isText_or_mem_blanks_or_symbol c with hc | hc | ⟨s, rfl⟩
  · exact hc
  · rcases mem_blanks_iff.mp hc with rfl | rfl | rfl | rfl | rfl <;> exact absurd h (by decide)
  · cases s <;> exact absurd h (by decide)

theorem isText_point : IsText '.' := by
  constructor <;> decide

theorem scan_symbol (s : Symbol) (cs : List Char) :
    scan (s.char :: cs) = .symbol s :: scan cs := by
  rw [scan_cons, consChar, Symbol.ofChar?_char]

theorem scan_blank (h : c ∈ blanks) : scan (c :: cs) = consBlank c (scan cs) := by
  rw [scan_cons, consChar, ofChar?_of_mem_blanks h]
  exact if_pos (isBlank_of_mem_blanks h)

theorem scan_text (h : IsText c) : scan (c :: cs) = consText c (scan cs) := by
  rw [scan_cons, consChar, h.ofChar?_eq_none]
  exact if_neg (Bool.eq_false_iff.mp h.isBlank_eq_false)

theorem scan_ne_star (h : ∀ rest, cs ≠ '*' :: rest) (rest : List Lexeme) :
    scan cs ≠ .symbol .star :: rest := by
  intro hscan
  have hcs := flatMap_chars_scan cs
  rw [hscan] at hcs
  exact h _ hcs.symm

end Lexeme

namespace Context

open Lexeme

theorem digitNext_scan (cs : List Char) : digitNext (scan cs) = cs.head?.any Char.isDigit := by
  cases cs with
  | nil => rfl
  | cons c cs =>
      cases hc : c.isDigit with
      | true =>
          rw [scan_text (isText_of_isDigit hc), List.head?_cons, Option.any_some, hc]
          unfold consText
          split
          · exact hc
          · exact hc
      | false =>
          rw [scan_cons, List.head?_cons, Option.any_some, hc]
          unfold consChar consBlank consText
          repeat' split
          all_goals first | rfl | exact hc

end Context

/-! ## The tokens of the characters -/

namespace Token

open Lexeme

/-- The tokens of the text that follows `context`, when the characters of `run`
have been read of the number token in progress. -/
def ofChars (b : Bindings) (context : Context) (run cs : List Char) : List Token :=
  ofLexemes b context run (scan cs)

theorem ofText_eq (b : Bindings) (text : String) :
    ofText b text = ofChars b .start [] text.toList := rfl

variable {b : Bindings} {context : Context} {run cs : List Char} {c : Char}

@[simp] theorem ofRun_nil : ofRun b [] = [] := rfl

theorem ofRun_empty (h : run ≠ []) : ofRun .empty run = [number (.ofList run)] := by
  rw [ofRun, if_neg (by simpa using h), Bindings.resolve?_empty]

theorem text_ofSymbol (s : Symbol) : (ofSymbol s).text.toList = [s.char] := by
  cases s <;> rfl

@[simp] theorem ofChars_nil : ofChars b context run [] = ofRun b run := by
  rw [ofChars, scan_nil, ofLexemes]

theorem ofChars_blank (h : c ∈ blanks) :
    ofChars b context run (c :: cs) = ofRun b run ++ ofChars b context [] cs := by
  rw [ofChars, ofChars, scan_blank h]
  unfold consBlank
  split
  · next hscan => rw [hscan, ofLexemes, ofLexemes, ofRun_nil, List.nil_append]
  · rw [ofLexemes]

theorem ofChars_text (h : IsText c) :
    ofChars b context run (c :: cs) = ofChars b .operand (run ++ [c]) cs := by
  rw [ofChars, ofChars, scan_text h]
  unfold consText
  split
  · next hscan => rw [hscan, ofLexemes, ofLexemes, List.append_assoc, List.singleton_append]
  · rw [ofLexemes]

theorem ofChars_texts {word : List Char} (hne : word ≠ []) (h : ∀ c ∈ word, IsText c) :
    ofChars b context run (word ++ cs) = ofChars b .operand (run ++ word) cs := by
  induction word generalizing context run with
  | nil => exact absurd rfl hne
  | cons c word ih =>
      rw [List.cons_append, ofChars_text (h c List.mem_cons_self)]
      cases word with
      | nil => rfl
      | cons d word =>
          rw [ih (List.cons_ne_nil d word) fun e he => h e (List.mem_cons_of_mem c he),
            List.append_assoc, List.singleton_append]

/-- A sign goes to the number token in progress, and an operand is still due. -/
theorem ofChars_sign (h : context.takesSign (scan cs) = true) :
    ofChars b context run ('-' :: cs) = ofChars b .operator (run ++ ['-']) cs := by
  rw [ofChars, ofChars, show scan ('-' :: cs) = _ from scan_symbol .minus cs, ofLexemes, if_pos h]

theorem ofChars_power :
    ofChars b context run ('*' :: '*' :: cs) =
      ofRun b run ++ operator .power :: ofChars b .operator [] cs := by
  rw [ofChars, ofChars, show scan ('*' :: '*' :: cs) = _ from scan_symbol .star ('*' :: cs),
    show scan ('*' :: cs) = _ from scan_symbol .star cs, ofLexemes]

/-- Any other symbol ends the number token in progress and is a token of its
own: a `-` that is no sign, and a `*` that none follows. -/
theorem ofChars_symbol (s : Symbol) (hminus : s = .minus → context.takesSign (scan cs) = false)
    (hstar : s = .star → ∀ rest, cs ≠ '*' :: rest) :
    ofChars b context run (s.char :: cs) =
      ofRun b run ++ ofSymbol s :: ofChars b (.after s) [] cs := by
  rw [ofChars, ofChars, scan_symbol]
  by_cases hs : s = .minus
  · subst hs
    rw [ofLexemes, if_neg (by simp [hminus rfl])]
    rfl
  · rw [ofLexemes]
    · exact hs
    · intro rest hscan hs'
      exact scan_ne_star (hstar hs') rest hscan

end Token
end Stepwise
