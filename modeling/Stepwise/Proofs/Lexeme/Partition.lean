import Mathlib.Data.List.Chain
import Stepwise.Proofs.Token.Places

/-!
# The lexemes of a text

The lexer has a rule for each of the seven symbols, one for texts and one for blanks
(`Matched`).  What it makes of a text is told in two ways that know nothing of the scan:

* the lexemes make up the text, each of them is matched by a rule, and no two neighbours are
  both texts or both blanks (`Partitions`);
* each lexeme is the longest one that a rule matches where the one before it ends, and this
  goes on to the end of the text (`LongestMatches`).

Main statement: for every text, of whatever characters, the scan gives the one list of which
the first holds, and the one list of which the second holds.  So there always is a match, and
no text is refused.

The two meet in the kind of a character: a lexeme is of the kind of each of its characters, so
a match that went beyond a lexeme would be of the same kind as the lexeme that follows.
-/

namespace Stepwise.Lexeme

/-- What the rules match: one symbol, `[^+\-*/%() \t\r\n\f]+` and `[ \t\r\n\f]+`. -/
inductive Matched : Lexeme → Prop
  | symbol (s : Symbol) : Matched (.symbol s)
  | text {run : List Char} : run ≠ [] → (∀ c ∈ run, c ∉ symbols ∧ c ∉ blanks) →
      Matched (.text run)
  | blank {run : List Char} : run ≠ [] → (∀ c ∈ run, c ∈ blanks) → Matched (.blank run)

inductive Kind where
  | symbol
  | text
  | blank
deriving DecidableEq, Repr

def kind : Lexeme → Kind
  | .symbol _ => .symbol
  | .text _ => .text
  | .blank _ => .blank

/-- The kind of the lexemes that a character can be part of. -/
def Kind.ofChar (c : Char) : Kind :=
  if c ∈ symbols then .symbol else if c ∈ blanks then .blank else .text

/-- The first of two neighbours does not go on in the second. -/
def Apart (l m : Lexeme) : Prop := l.kind = m.kind → l.kind = .symbol

/-- The lexemes make up the text, and runs are as long as they can be. -/
structure Partitions (lexemes : List Lexeme) (text : List Char) : Prop where
  chars : lexemes.flatMap chars = text
  matched : ∀ l ∈ lexemes, l.Matched
  apart : lexemes.IsChain Apart

/-- The text begins with the lexeme, and with nothing longer that a rule matches. -/
structure LongestMatch (l : Lexeme) (text : List Char) : Prop where
  matched : l.Matched
  starts : l.chars <+: text
  longest : ∀ m : Lexeme, m.Matched → m.chars <+: text → m.chars.length ≤ l.chars.length

/-- The longest match is taken off the text again and again, until nothing is left. -/
inductive LongestMatches : List Lexeme → List Char → Prop
  | nil : LongestMatches [] []
  | cons {l : Lexeme} {lexemes : List Lexeme} {rest : List Char} :
      LongestMatch l (l.chars ++ rest) → LongestMatches lexemes rest →
      LongestMatches (l :: lexemes) (l.chars ++ rest)

variable {c : Char} {l m : Lexeme} {lexemes others : List Lexeme} {text : List Char}

/-! ## Kinds -/

theorem Matched.chars_ne_nil (h : l.Matched) : l.chars ≠ [] := by
  cases h with
  | symbol s => exact List.cons_ne_nil s.char []
  | text hne _ => exact hne
  | blank hne _ => exact hne

/-- A lexeme is of the kind of each of its characters. -/
theorem Matched.ofChar_eq (h : l.Matched) (hc : c ∈ l.chars) : Kind.ofChar c = l.kind := by
  cases h with
  | symbol s =>
      obtain rfl := List.mem_singleton.mp hc
      exact if_pos (char_mem_symbols s)
  | text _ hrun =>
      obtain ⟨hsymbol, hblank⟩ := hrun c hc
      exact (if_neg hsymbol).trans (if_neg hblank)
  | blank _ hrun =>
      have hblank := hrun c hc
      exact (if_neg (not_mem_symbols_of_mem_blanks hblank)).trans (if_pos hblank)

theorem Matched.kind_eq (hl : l.Matched) (hm : m.Matched) (hcl : c ∈ l.chars)
    (hcm : c ∈ m.chars) : l.kind = m.kind :=
  (hl.ofChar_eq hcl).symm.trans (hm.ofChar_eq hcm)

theorem length_chars_of_kind (h : l.kind = .symbol) : l.chars.length = 1 := by
  cases l with
  | symbol s => rfl
  | text _ => cases h
  | blank _ => cases h

theorem Matched.eq_of_chars_eq (hl : l.Matched) (hm : m.Matched) (h : l.chars = m.chars) :
    l = m := by
  obtain ⟨c, hc⟩ := List.exists_mem_of_ne_nil _ hl.chars_ne_nil
  have hkind := hl.kind_eq hm hc (h ▸ hc)
  cases hl with
  | symbol s =>
      cases hm with
      | symbol s' =>
          have hs := Symbol.ofChar?_char s
          rw [List.singleton_inj.mp h, Symbol.ofChar?_char] at hs
          rw [Option.some_inj.mp hs]
      | text _ _ => cases hkind
      | blank _ _ => cases hkind
  | text _ _ =>
      cases hm with
      | symbol _ => cases hkind
      | text _ _ => exact congrArg Lexeme.text h
      | blank _ _ => cases hkind
  | blank _ _ =>
      cases hm with
      | symbol _ => cases hkind
      | text _ _ => cases hkind
      | blank _ _ => exact congrArg Lexeme.blank h

/-! ## The scan partitions the text -/

theorem Partitions.tail (h : Partitions (l :: lexemes) text) :
    Partitions lexemes (lexemes.flatMap Lexeme.chars) where
  chars := rfl
  matched := fun m hm => h.matched m (List.mem_cons_of_mem l hm)
  apart := h.apart.tail

theorem Partitions.cons (hl : l.Matched) (h : Partitions lexemes text)
    (hapart : ∀ m ∈ lexemes.head?, Apart l m) : Partitions (l :: lexemes) (l.chars ++ text) where
  chars := by rw [List.flatMap_cons, h.chars]
  matched := List.forall_mem_cons.mpr ⟨hl, h.matched⟩
  apart := List.isChain_cons.mpr ⟨hapart, h.apart⟩

theorem Partitions.extend (h : Partitions (l :: lexemes) text) (hm : m.Matched)
    (hkind : m.kind = l.kind) :
    Partitions (m :: lexemes) (m.chars ++ lexemes.flatMap Lexeme.chars) := by
  refine h.tail.cons hm ?_
  intro n hn
  have hapart := (List.isChain_cons.mp h.apart).1 n hn
  rwa [Apart, hkind]

theorem Partitions.consBlank (hc : c ∈ blanks) (h : Partitions lexemes text) :
    Partitions (consBlank c lexemes) (c :: text) := by
  have hone : Matched (.blank [c]) :=
    .blank (List.cons_ne_nil c []) (List.forall_mem_singleton.mpr hc)
  unfold Lexeme.consBlank
  split
  · next run rest =>
    cases h.matched _ List.mem_cons_self with
    | blank hne hrun =>
        have hmore : Matched (.blank (c :: run)) :=
          .blank (List.cons_ne_nil c run) (List.forall_mem_cons.mpr ⟨hc, hrun⟩)
        rw [← h.chars]
        exact h.extend hmore rfl
  · next hne =>
    refine h.cons hone ?_
    rintro m hm hkind
    cases lexemes with
    | nil => cases hm
    | cons first rest =>
        obtain rfl : first = m := Option.some_inj.mp hm
        cases first with
        | symbol _ => cases hkind
        | text _ => cases hkind
        | blank run => exact absurd rfl (hne run rest)

theorem Partitions.consText (hc : IsText c) (h : Partitions lexemes text) :
    Partitions (consText c lexemes) (c :: text) := by
  have hone : Matched (.text [c]) :=
    .text (List.cons_ne_nil c []) (List.forall_mem_singleton.mpr hc)
  unfold Lexeme.consText
  split
  · next run rest =>
    cases h.matched _ List.mem_cons_self with
    | text hne hrun =>
        have hmore : Matched (.text (c :: run)) :=
          .text (List.cons_ne_nil c run) (List.forall_mem_cons.mpr ⟨hc, hrun⟩)
        rw [← h.chars]
        exact h.extend hmore rfl
  · next hne =>
    refine h.cons hone ?_
    rintro m hm hkind
    cases lexemes with
    | nil => cases hm
    | cons first rest =>
        obtain rfl : first = m := Option.some_inj.mp hm
        cases first with
        | symbol _ => cases hkind
        | text run => exact absurd rfl (hne run rest)
        | blank _ => cases hkind

theorem partitions_scan (cs : List Char) : Partitions (scan cs) cs := by
  induction cs with
  | nil => exact ⟨rfl, nofun, .nil⟩
  | cons c cs ih =>
      rcases isText_or_mem_blanks_or_symbol c with hc | hc | ⟨s, rfl⟩
      · rw [scan_text hc]
        exact ih.consText hc
      · rw [scan_blank hc]
        exact ih.consBlank hc
      · rw [scan_symbol]
        exact ih.cons (.symbol s) fun _ _ _ => rfl

/-! ## The longest match -/

/-- Where neighbours are apart nothing longer than the first lexeme is matched.  A longer match
would be of its kind, and its next character would make the second lexeme of that kind too. -/
theorem Partitions.longestMatch (h : Partitions (l :: lexemes) text) : LongestMatch l text := by
  obtain ⟨hl, hlexemes⟩ := List.forall_mem_cons.mp h.matched
  have hstarts : l.chars <+: text := ⟨lexemes.flatMap Lexeme.chars, h.chars⟩
  refine ⟨hl, hstarts, ?_⟩
  intro m hm hprefix
  by_contra hlt
  obtain ⟨more, hmore⟩ := List.prefix_of_prefix_length_le hstarts hprefix (by omega)
  obtain ⟨c, hc⟩ := List.exists_mem_of_ne_nil _ hl.chars_ne_nil
  have hkind : l.kind = m.kind := hl.kind_eq hm hc (hmore ▸ List.mem_append_left more hc)
  cases more with
  | nil => exact hlt (by rw [← hmore, List.append_nil])
  | cons d more =>
      have hd : d ∈ m.chars := hmore ▸ List.mem_append_right _ List.mem_cons_self
      obtain ⟨behind, hbehind⟩ := hprefix
      have hrest : d :: (more ++ behind) = lexemes.flatMap Lexeme.chars := by
        have htext := hbehind.trans h.chars.symm
        rw [← hmore, List.append_assoc, List.flatMap_cons] at htext
        exact List.append_cancel_left htext
      cases lexemes with
      | nil => cases hrest
      | cons n lexemes =>
          obtain ⟨hn, _⟩ := List.forall_mem_cons.mp hlexemes
          have hdn : d ∈ n.chars := by
            obtain ⟨e, run, he⟩ := List.exists_cons_of_ne_nil hn.chars_ne_nil
            rw [List.flatMap_cons, he] at hrest
            rw [he, (List.cons.inj hrest).1]
            exact List.mem_cons_self
          have hsymbol : l.kind = .symbol :=
            (List.isChain_cons_cons.mp h.apart).1 (hkind.trans (hm.kind_eq hn hd hdn))
          have hone := length_chars_of_kind (hkind.symm.trans hsymbol)
          have hpos := List.length_pos_iff.mpr hl.chars_ne_nil
          omega

theorem Partitions.longestMatches (h : Partitions lexemes text) : LongestMatches lexemes text := by
  induction lexemes generalizing text with
  | nil =>
      obtain rfl : [] = text := h.chars
      exact .nil
  | cons l lexemes ih =>
      have hlongest := h.longestMatch
      rw [← h.chars, List.flatMap_cons] at hlongest ⊢
      exact .cons hlongest (ih h.tail)

theorem LongestMatch.unique (hl : LongestMatch l text) (hm : LongestMatch m text) : l = m := by
  have hlength : l.chars.length = m.chars.length :=
    Nat.le_antisymm (hm.longest l hl.matched hl.starts) (hl.longest m hm.matched hm.starts)
  obtain ⟨more, hmore⟩ :=
    List.prefix_of_prefix_length_le hl.starts hm.starts (Nat.le_of_eq hlength)
  obtain rfl : more = [] := by
    have htotal := congrArg List.length hmore
    rw [List.length_append] at htotal
    exact List.length_eq_zero_iff.mp (by omega)
  rw [List.append_nil] at hmore
  exact hl.matched.eq_of_chars_eq hm.matched hmore

/-- Going on with the longest match leaves no choice. -/
theorem LongestMatches.unique (h : LongestMatches lexemes text)
    (h' : LongestMatches others text) : lexemes = others := by
  induction h generalizing others with
  | nil =>
      generalize htext : ([] : List Char) = text at h'
      cases h' with
      | nil => rfl
      | cons hm _ => exact absurd (List.append_eq_nil_iff.mp htext.symm).1 hm.matched.chars_ne_nil
  | @cons l lexemes rest hl _ ih =>
      generalize htext : l.chars ++ rest = text at h'
      cases h' with
      | nil => exact absurd (List.append_eq_nil_iff.mp htext).1 hl.matched.chars_ne_nil
      | @cons m others rest' hm hothers =>
          rw [htext] at hl
          obtain rfl := hl.unique hm
          obtain rfl := List.append_cancel_left htext
          rw [ih hothers]

/-- The lexemes of a text are the one list that partitions it, and they are the longest matches
one after the other, up to the end of the text. -/
theorem scan_eq_iff_partitions (text : String) (lexemes : List Lexeme) :
    (scan text.toList = lexemes ↔ Partitions lexemes text.toList) ∧
      (scan text.toList = lexemes ↔ LongestMatches lexemes text.toList) := by
  have hscan := partitions_scan text.toList
  constructor
  · constructor
    · rintro rfl
      exact hscan
    · intro h
      exact hscan.longestMatches.unique h.longestMatches
  · constructor
    · rintro rfl
      exact hscan.longestMatches
    · exact hscan.longestMatches.unique

/-- Vertical tab, next line and no-break space belong to texts. -/
example : scan "2\x0b? \u0085\u00a0,\t\n**".toList =
    [.text ['2', '\x0b', '?'], .blank [' '], .text ['\u0085', '\u00a0', ','],
      .blank ['\t', '\n'], .symbol .star, .symbol .star] := by
  decide

end Stepwise.Lexeme
