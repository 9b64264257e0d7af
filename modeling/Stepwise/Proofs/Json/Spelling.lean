import Stepwise.Json.ReadText

/-!
# Ways to write a text

A text can be written in quotes in many ways: most characters stand for themselves, some
have an escape of one letter, and every character can be escaped by its code units, in
digits of either case, with a pair of surrogates where one unit is not enough.
`Spells key cs` says that `cs` is one of the ways to write `key`, character by character.

Main statements: every text can be written (`exists_spells`), and whatever way it is
written, it is read back, up to its closing quote and no further (`readText_of_spells`).
-/

namespace Stepwise.Json

/-- The character is a hexadecimal digit of either case with this value. -/
def HexDigit (c : Char) (n : Nat) : Prop := n < 16 ∧ (c = n.digitChar ∨ c = n.digitChar.toUpper)

/-- The characters are the four hexadecimal digits of a code unit. -/
inductive CodeUnit : (digits : List Char) → (unit : Nat) → Prop
  | intro {a b c d : Char} {p q r s : Nat} : HexDigit a p → HexDigit b q → HexDigit c r →
      HexDigit d s → CodeUnit [a, b, c, d] (((p * 16 + q) * 16 + r) * 16 + s)

/-- The escapes of one letter, and the characters they stand for. -/
def shortEscapes : List (Char × Char) :=
  [('"', '"'), ('\\', '\\'), ('/', '/'), ('b', '\x08'), ('f', '\x0c'), ('n', '\n'), ('r', '\r'),
    ('t', '\t')]

/-- The ways to write a character in quotes. -/
inductive SpellsChar : Char → List Char → Prop
  | itself {c : Char} : c ≠ '"' → c ≠ '\\' → 0x20 ≤ c.toNat → SpellsChar c [c]
  | short {letter c : Char} : (letter, c) ∈ shortEscapes → SpellsChar c ['\\', letter]
  | unit {c : Char} {digits : List Char} : CodeUnit digits c.toNat →
      SpellsChar c ('\\' :: 'u' :: digits)
  | pair {c : Char} {digits digits' : List Char} {high low : Nat} :
      CodeUnit digits (0xd800 + high) → CodeUnit digits' (0xdc00 + low) →
      high < 0x400 → low < 0x400 → c.toNat = 0x10000 + high * 0x400 + low →
      SpellsChar c ('\\' :: 'u' :: (digits ++ '\\' :: 'u' :: digits'))

/-- The ways to write a text in quotes. -/
inductive Spells : (key cs : List Char) → Prop
  | nil : Spells [] []
  | cons {c : Char} {key spelled cs : List Char} : SpellsChar c spelled → Spells key cs →
      Spells (c :: key) (spelled ++ cs)

variable {c : Char} {digits key spelled cs rest : List Char} {n unit : Nat}

/-! ## Code units -/

theorem hexDigit?_digitChar :
    ∀ n < 16, hexDigit? n.digitChar = some n ∧ hexDigit? n.digitChar.toUpper = some n := by
  decide

theorem HexDigit.hexDigit?_eq (h : HexDigit c n) : hexDigit? c = some n := by
  obtain ⟨hn, rfl | rfl⟩ := h
  · exact (hexDigit?_digitChar n hn).1
  · exact (hexDigit?_digitChar n hn).2

theorem CodeUnit.readCodeUnit_append (h : CodeUnit digits unit) (rest : List Char) :
    readCodeUnit (digits ++ rest) = .ok (unit, rest) := by
  cases h with
  | intro ha hb hc hd =>
      simp [readCodeUnit, fourHexDigits?, ha.hexDigit?_eq, hb.hexDigit?_eq, hc.hexDigit?_eq,
        hd.hexDigit?_eq]

theorem exists_codeUnit (h : unit < 0x10000) : ∃ digits, CodeUnit digits unit := by
  have hdigit : ∀ n < 16, HexDigit n.digitChar n := fun n hn => ⟨hn, .inl rfl⟩
  have hunit : ((unit / 4096 * 16 + unit / 256 % 16) * 16 + unit / 16 % 16) * 16 + unit % 16 =
      unit := by omega
  have hdigits := CodeUnit.intro (hdigit (unit / 4096) (by omega))
    (hdigit (unit / 256 % 16) (Nat.mod_lt _ (by decide)))
    (hdigit (unit / 16 % 16) (Nat.mod_lt _ (by decide)))
    (hdigit (unit % 16) (Nat.mod_lt _ (by decide)))
  rw [hunit] at hdigits
  exact ⟨_, hdigits⟩

theorem not_isSurrogate (c : Char) :
    isLowSurrogate c.toNat = false ∧ isHighSurrogate c.toNat = false := by
  have hvalid : c.toNat < 0xd800 ∨ 0xdfff < c.toNat ∧ c.toNat < 0x110000 := c.valid
  simp only [isLowSurrogate, isHighSurrogate, Bool.and_eq_false_iff, decide_eq_false_iff_not]
  omega

theorem readUnicodeEscape_unit (h : CodeUnit digits c.toNat) (rest : List Char) :
    readUnicodeEscape (digits ++ rest) = .ok (c, rest) := by
  obtain ⟨hlow, hhigh⟩ := not_isSurrogate c
  simp only [readUnicodeEscape, h.readCodeUnit_append, hlow, hhigh, Bool.false_eq_true, if_false,
    Char.ofNat_toNat]

theorem readUnicodeEscape_pair {digits' : List Char} {high low : Nat}
    (hhigh : CodeUnit digits (0xd800 + high)) (hlow : CodeUnit digits' (0xdc00 + low))
    (hh : high < 0x400) (hl : low < 0x400) (hc : c.toNat = 0x10000 + high * 0x400 + low)
    (rest : List Char) :
    readUnicodeEscape (digits ++ '\\' :: 'u' :: (digits' ++ rest)) = .ok (c, rest) := by
  have hnotlow : isLowSurrogate (0xd800 + high) = false := by
    simp only [isLowSurrogate, Bool.and_eq_false_iff, decide_eq_false_iff_not]
    omega
  have hishigh : isHighSurrogate (0xd800 + high) = true := by
    simp only [isHighSurrogate, Bool.and_eq_true, decide_eq_true_eq]
    omega
  have hislow : isLowSurrogate (0xdc00 + low) = true := by
    simp only [isLowSurrogate, Bool.and_eq_true, decide_eq_true_eq]
    omega
  have hchar : ofSurrogates (0xd800 + high) (0xdc00 + low) = c := by
    rw [ofSurrogates, Nat.add_sub_cancel_left, Nat.add_sub_cancel_left, ← hc, Char.ofNat_toNat]
  simp only [readUnicodeEscape, hhigh.readCodeUnit_append, hnotlow, hishigh, readLowSurrogate,
    hlow.readCodeUnit_append, hislow, hchar, Bool.false_eq_true, if_false, if_true]

/-! ## Texts -/

theorem readEscape_short {letter : Char} (h : (letter, c) ∈ shortEscapes) (rest : List Char) :
    readEscape (letter :: rest) = .ok (c, rest) := by
  have hunescape : ∀ p ∈ shortEscapes, unescape? p.1 = some p.2 := by decide
  rw [readEscape, hunescape _ h]

theorem readEscape_unicode (rest : List Char) :
    readEscape ('u' :: rest) = readUnicodeEscape rest := rfl

theorem readText_of_escape (hescape : readEscape cs = .ok (c, rest)) {behind : List Char}
    (h : readText rest = .ok (key, behind)) :
    readText ('\\' :: cs) = .ok (c :: key, behind) := by
  rw [readText]
  split
  · next heq => cases hescape.symm.trans heq
  · next heq =>
    cases hescape.symm.trans heq
    rw [h]

theorem SpellsChar.readText_append (hchar : SpellsChar c spelled) {behind : List Char}
    (h : readText rest = .ok (key, behind)) :
    readText (spelled ++ rest) = .ok (c :: key, behind) := by
  cases hchar with
  | itself hquote hbackslash hcontrol =>
      rw [List.singleton_append, readText, if_neg (Nat.not_lt.mpr hcontrol), h]
      · exact hquote
      · exact hbackslash
  | short hmem => exact readText_of_escape (readEscape_short hmem rest) h
  | unit hunit =>
      refine readText_of_escape ?_ h
      exact (readEscape_unicode _).trans (readUnicodeEscape_unit hunit rest)
  | pair hhigh hlow hh hl hc =>
      rw [List.cons_append, List.cons_append, List.append_assoc]
      refine readText_of_escape ?_ h
      exact (readEscape_unicode _).trans (readUnicodeEscape_pair hhigh hlow hh hl hc rest)

theorem exists_spellsChar (c : Char) : ∃ cs, SpellsChar c cs := by
  by_cases hcontrol : 0x20 ≤ c.toNat
  · by_cases hquote : c = '"'
    · exact ⟨_, .short (show (c, c) ∈ shortEscapes from hquote ▸ by decide)⟩
    by_cases hbackslash : c = '\\'
    · exact ⟨_, .short (show (c, c) ∈ shortEscapes from hbackslash ▸ by decide)⟩
    exact ⟨_, .itself hquote hbackslash hcontrol⟩
  · obtain ⟨digits, hdigits⟩ := exists_codeUnit (show c.toNat < 0x10000 by omega)
    exact ⟨_, .unit hdigits⟩

/-- Every text can be written. -/
theorem exists_spells (key : List Char) : ∃ cs, Spells key cs := by
  induction key with
  | nil => exact ⟨[], .nil⟩
  | cons c key ih =>
      obtain ⟨spelled, hspelled⟩ := exists_spellsChar c
      obtain ⟨cs, hcs⟩ := ih
      exact ⟨_, .cons hspelled hcs⟩

/-- A text is read back in whatever way it is written. -/
theorem readText_of_spells (h : Spells key cs) (rest : List Char) :
    readText (cs ++ '"' :: rest) = .ok (key, rest) := by
  induction h with
  | nil => rw [List.nil_append, readText]
  | cons hchar _ ih =>
      rw [List.append_assoc]
      exact hchar.readText_append ih

end Stepwise.Json
