import Stepwise.Proofs.Binary64.Text
import Stepwise.Proofs.Token.Places
import Stepwise.Proofs.Token.Proper
import Stepwise.Proofs.Token.RoundTrip

/-!
# What the tokens of a text are made of

Without bindings the texts of the tokens, one after the other, are the text without its
blanks: no character is lost, none comes twice, and none changes places.  Symbols are
written as they were read, two of them for a power, and a number token is its characters.
With bindings only the texts of number tokens are others, and still none is empty.

The first half is read off the lexemes, where a blank one is all that is dropped.
-/

namespace Stepwise

open Lexeme

namespace Lexeme

/-- The characters of a lexeme that go into tokens. -/
def kept : Lexeme → List Char
  | .blank _ => []
  | lexeme => lexeme.chars

theorem flatMap_kept_consChar (c : Char) (rest : List Lexeme) :
    (consChar c rest).flatMap kept = (if isBlank c then [] else [c]) ++ rest.flatMap kept := by
  unfold consChar
  split
  · next s hs =>
    rw [Symbol.ofChar?_eq_some_iff.mp hs, isBlank_char]
    rfl
  · split
    · unfold consBlank
      split <;> rfl
    · unfold consText
      split <;> rfl

theorem flatMap_kept_scan (cs : List Char) : (scan cs).flatMap kept = cs.filter (· ∉ blanks) := by
  induction cs with
  | nil => rfl
  | cons c cs ih =>
      rw [scan_cons, flatMap_kept_consChar, ih]
      by_cases hc : c ∈ blanks
      · rw [if_pos (isBlank_of_mem_blanks hc), List.filter_cons_of_neg (by simpa using hc)]
        rfl
      · rw [if_neg (mt mem_blanks_of_isBlank hc), List.filter_cons_of_pos (by simpa using hc)]
        rfl

end Lexeme

theorem Binary64.toText_ne_empty (x : Binary64) : x.toText ≠ "" := by
  cases hx : x.isFinite with
  | true =>
      rw [toText, ne_eq, String.ofList_eq_empty_iff]
      exact (literal_toChars hx).ne_nil
  | false =>
      rcases toText_of_not_isFinite hx with h | h | h <;> simp [h]

namespace Token

variable {b : Bindings} {t : Token} {run : List Char}

/-! ## Nothing is lost -/

theorem flatMap_text_ofRun (run : List Char) :
    (ofRun .empty run).flatMap (·.text.toList) = run := by
  by_cases hrun : run = []
  · subst hrun
    rfl
  · rw [ofRun_empty hrun, List.flatMap_singleton, text_number, String.toList_ofList]

/-- The tokens of lexemes are made of the run in progress and the characters that are
kept. -/
theorem flatMap_text_ofLexemes {context : Context} {lexemes : List Lexeme} :
    (ofLexemes .empty context run lexemes).flatMap (·.text.toList) =
      run ++ lexemes.flatMap kept := by
  fun_induction ofLexemes .empty context run lexemes with
  | case1 _ run => rw [flatMap_text_ofRun, List.flatMap_nil, List.append_nil]
  | case2 _ run cs rest ih =>
      rw [ih, List.append_assoc]
      rfl
  | case3 context run _ rest ih =>
      rw [List.flatMap_append, flatMap_text_ofRun, ih]
      rfl
  | case4 context run rest _ ih =>
      rw [ih, List.append_assoc]
      rfl
  | case5 context run rest _ ih =>
      rw [List.flatMap_append, flatMap_text_ofRun, List.flatMap_cons, ih]
      rfl
  | case6 _ run rest ih =>
      rw [List.flatMap_append, flatMap_text_ofRun, List.flatMap_cons, ih]
      rfl
  | case7 _ run s rest _ _ ih =>
      rw [List.flatMap_append, flatMap_text_ofRun, List.flatMap_cons, text_ofSymbol, ih]
      rfl

/-! ## No token is empty -/

theorem text_ne_empty_of_mem_ofRun {run : List Char} (h : t ∈ ofRun b run) : t.text ≠ "" := by
  rw [ofRun] at h
  split at h
  · cases h
  · next hrun =>
    split at h
    · next value _ =>
      rw [List.mem_singleton.mp h]
      exact value.toText_ne_empty
    · rw [List.mem_singleton.mp h, text_number, ne_eq, String.ofList_eq_empty_iff]
      simpa using hrun

theorem text_ofSymbol_ne_empty (s : Symbol) : (ofSymbol s).text ≠ "" := by
  intro hempty
  have htext := text_ofSymbol s
  rw [hempty] at htext
  cases htext

/-- The tokens of a text are made of its characters, blanks apart, in their order; and with
any bindings they are numbers with a text, operators with their symbols, and
parentheses. -/
theorem ofText_content (b : Bindings) (text : String) :
    String.join ((ofText .empty text).map Token.text) = .ofList (text.toList.filter (· ∉ blanks)) ∧
      ∀ t ∈ ofText b text, t.kind ≠ .error ∧
        ((t.kind = .number ∧ t.text ≠ "") ∨
          (t.kind = .operator ∧ ∃ op, t.operator? = some op ∧ t.text = op.symbol) ∨
          t = opening ∨ t = closing) := by
  constructor
  · have hkept :
        (ofText .empty text).flatMap (·.text.toList) = text.toList.filter (· ∉ blanks) := by
      rw [ofText, flatMap_text_ofLexemes, flatMap_kept_scan, List.nil_append]
    rw [← String.toList_inj, String.toList_join, String.toList_ofList, List.flatMap_map]
    exact hkept
  · intro t ht
    have hproper : t.Proper := proper_of_mem_ofText b text t ht
    have htext : ∀ t ∈ ofText b text, t.text ≠ "" :=
      forall_mem_ofLexemes (fun _ _ => text_ne_empty_of_mem_ofRun) text_ofSymbol_ne_empty nofun
    refine ⟨hproper.kind_ne_error, ?_⟩
    cases hproper with
    | number text => exact .inl ⟨rfl, htext _ ht⟩
    | operator op => exact .inr (.inl ⟨rfl, op, operator?_operator op, rfl⟩)
    | opening => exact .inr (.inr (.inl rfl))
    | closing => exact .inr (.inr (.inr rfl))

/-- A bound letter after a power and a sign in front, with blanks between them. -/
theorem ofText_content_bound :
    let b := Bindings.empty.insert 'a' (.ofText "-2")
    number "-2" ∈ ofText b "-1 ***\x0ca" ∧
      String.join ((ofText .empty "-1 ***\x0ca").map Token.text) = "-1***a" ∧
      (number "-2").kind ≠ .error := by
  intro b
  have hmem : number "-2" ∈ ofText b "-1 ***\x0ca" := by decide +kernel
  obtain ⟨hjoin, hall⟩ := ofText_content b "-1 ***\x0ca"
  exact ⟨hmem, hjoin, (hall _ hmem).1⟩

end Token
end Stepwise
