import Stepwise.Proofs.Expression.SameTokens
import Stepwise.Proofs.Token.Places
import Stepwise.Proofs.Token.RoundTrip

/-!
# Writing out bound letters

A letter that is bound can be replaced in the text by the number it stands for.  For any
text this leaves a text with the tokens of the bound one in their places, blanks and all
(`spaced_substitute`).  It is another question what that text is tokenized to, since a
negative number brings a `-` along, and a digit where there was none: `2*-a` is rejected
whatever `a` is, while `2*-6` has a sign.  For accepted expressions the grammar decides
it: where an operand is due a `-` is a sign, and after an operand none is, so that
tokenizing undoes writing.

Main statement: an accepted expression and the one with its letters written out, which
needs no bindings, are parsed to the same tokens and blocks and go on alike.
-/

namespace Stepwise

open Lexeme
open Structure (Alternates IsLiteral)

namespace Bindings

/-- The characters of a number token after substitution: those of its number for a bound
ASCII letter, and its own for any other. -/
def written (b : Bindings) : List Char → List Char
  | [c] =>
      match b.get? c with
      | some x => if c.isAlpha then x.toChars else [c]
      | none => [c]
  | run => run

/-- The text with every bound letter written out that is a number token of its own: no
character next to it belongs to one.  `before` is what stands before, read backwards. -/
def writeOut (b : Bindings) (before : List Char) : List Char → List Char
  | [] => []
  | c :: after =>
      (if numberBefore before (c :: after) || numberAfter (c :: before) after then [c]
        else b.written [c]) ++ b.writeOut (c :: before) after

/-- The expression text with its bound letters written out. -/
def substitute (b : Bindings) (text : String) : String := .ofList (b.writeOut [] text.toList)

variable {b : Bindings} {c : Char} {before run cs : List Char}

/-! ## One character at a time -/

theorem written_eq (b : Bindings) (run : List Char) :
    b.written run = (b.resolve? run).elim run Binary64.toChars := by
  match run with
  | [] => rfl
  | [c] => cases hget : b.get? c <;> cases hc : c.isAlpha <;> simp [written, resolve?, letter?, *]
  | _ :: _ :: _ => rfl

theorem written_append (hrun : run ≠ []) : b.written (run ++ [c]) = run ++ [c] := by
  cases run with
  | nil => exact absurd rfl hrun
  | cons d run => cases run <;> rfl

theorem written_of_not_isAlpha (h : c.isAlpha = false) : b.written [c] = [c] := by
  simp [written_eq, resolve?, letter?, h]

theorem not_isAlpha_of_mem_blanks (h : c ∈ blanks) : c.isAlpha = false := by
  rcases mem_blanks_iff.mp h with rfl | rfl | rfl | rfl | rfl <;> rfl

theorem writeOut_of_not_isAlpha (h : c.isAlpha = false) :
    b.writeOut before (c :: cs) = c :: b.writeOut (c :: before) cs := by
  rw [writeOut, written_of_not_isAlpha h, ite_self]
  rfl

/-- What has been written of the number token in progress: as long as it may go on, its
characters. -/
def pending (b : Bindings) (before run cs : List Char) : List Char :=
  if numberAfter before cs then run else b.written run

@[simp] theorem pending_nil : b.pending before [] cs = [] := ite_self _

theorem pending_of_numberAfter_eq_false (h : numberAfter before cs = false) :
    b.pending before run cs = b.written run := by
  simp [pending, h]

theorem append_writeOut (hrun : run = [] ↔ numberBefore before (c :: cs) = false) :
    run ++ b.writeOut before (c :: cs) =
      b.pending (c :: before) (run ++ [c]) cs ++ b.writeOut (c :: before) cs := by
  rw [writeOut, pending]
  cases hafter : numberAfter (c :: before) cs with
  | true => simp
  | false =>
      cases hbefore : numberBefore before (c :: cs) with
      | true =>
          have hne : run ≠ [] := by
            rw [ne_eq, hrun, hbefore]
            decide
          simp [written_append hne]
      | false =>
          have hnil : run = [] := hrun.mpr hbefore
          simp [hnil]

end Bindings

namespace Token

variable {b : Bindings} {tokens : List Token} {before run cs gap : List Char}

theorem ofRun_eq (b : Bindings) (run : List Char) :
    ofRun b run = if run.isEmpty then [] else [number (.ofList (b.written run))] := by
  rw [ofRun, Bindings.written_eq]
  cases b.resolve? run <;> rfl

theorem Spaced.ofRun_append (h : Spaced tokens cs) :
    Spaced (ofRun b run ++ tokens) (b.written run ++ cs) := by
  have touching : ∀ c ∈ ([] : List Char), c ∈ blanks := fun _ hc => absurd hc List.not_mem_nil
  cases run with
  | nil => exact h
  | cons c run =>
      have hspaced := @Spaced.cons _ _ (number (.ofList (b.written (c :: run)))) _ touching h
      rw [ofRun_eq]
      simpa using hspaced

theorem Spaced.cons_touching {t : Token} (h : Spaced tokens cs) :
    Spaced (t :: tokens) (t.text.toList ++ cs) :=
  @Spaced.cons [] _ _ _ (fun _ hc => absurd hc List.not_mem_nil) h

theorem Spaced.after_blank {c : Char} (hc : c ∈ blanks)
    (h : Spaced tokens (b.writeOut (c :: before) cs)) :
    Spaced (ofRun b run ++ tokens) (b.written run ++ b.writeOut before (c :: cs)) := by
  rw [Bindings.writeOut_of_not_isAlpha (Bindings.not_isAlpha_of_mem_blanks hc)]
  exact (h.blank hc).ofRun_append

theorem Spaced.after_symbol (s : Symbol) (h : Spaced tokens (b.writeOut (s.char :: before) cs)) :
    Spaced (ofRun b run ++ ofSymbol s :: tokens)
      (b.written run ++ b.writeOut before (s.char :: cs)) := by
  have hspaced : Spaced (ofSymbol s :: tokens) (s.char :: b.writeOut (s.char :: before) cs) := by
    have htouching := @cons_touching _ _ (ofSymbol s) h
    rwa [text_ofSymbol] at htouching
  rw [Bindings.writeOut_of_not_isAlpha (by cases s <;> rfl)]
  exact hspaced.ofRun_append

theorem Spaced.after_power (h : Spaced tokens (b.writeOut ('*' :: '*' :: before) cs)) :
    Spaced (ofRun b run ++ operator .power :: tokens)
      (b.written run ++ b.writeOut before ('*' :: '*' :: cs)) := by
  rw [Bindings.writeOut_of_not_isAlpha rfl, Bindings.writeOut_of_not_isAlpha rfl]
  exact (@cons_touching _ _ (operator .power) h).ofRun_append

/-- Writing out bound letters leaves the texts of the tokens in their places.  By
induction along the text, with a number token in progress. -/
theorem spaced_writeOut {cs before run : List Char}
    (hrun : run = [] ↔ numberBefore before cs = false) :
    Spaced (ofChars b (.behind before) run cs)
      (b.pending before run cs ++ b.writeOut before cs) := by
  match cs with
  | [] =>
      have hnil : Spaced [] [] := .nil fun _ hc => absurd hc List.not_mem_nil
      have hspaced : Spaced (ofRun b run ++ []) (b.written run ++ []) := hnil.ofRun_append
      rw [List.append_nil] at hspaced
      rw [ofChars_nil]
      exact hspaced
  | c :: cs =>
      cases hc : isOfNumber before c cs with
      | true =>
          have hpending : b.pending before run (c :: cs) = run := if_pos hc
          rw [hpending, Bindings.append_writeOut hrun, ofChars_ofNumber hc]
          exact spaced_writeOut (iff_of_false (by simp) (by simp [numberBefore, hc]))
      | false =>
          have hrest : Spaced (ofChars b (.behind (c :: before)) [] cs)
              (b.writeOut (c :: before) cs) := by
            have hspaced := @spaced_writeOut cs (c :: before) [] (iff_of_true rfl hc)
            rwa [Bindings.pending_nil] at hspaced
          have hpending : b.pending before run (c :: cs) = b.written run :=
            Bindings.pending_of_numberAfter_eq_false hc
          rw [hpending]
          rcases isText_or_mem_blanks_or_symbol c with htext | hblank | ⟨s, rfl⟩
          · rw [isOfNumber_text htext] at hc
            cases hc
          · rw [ofChars_blank hblank, ← Context.behind_blank hblank]
            exact hrest.after_blank hblank
          · by_cases hpower : s = .star ∧ ∃ rest, cs = '*' :: rest
            · -- two characters are read at once, and the place between them is passed over
              obtain ⟨rfl, rest, rfl⟩ := hpower
              have hspaced := @spaced_writeOut rest ('*' :: '*' :: before) [] (iff_of_true rfl rfl)
              rw [Bindings.pending_nil] at hspaced
              rw [show Symbol.star.char = '*' from rfl, ofChars_power]
              exact hspaced.after_power
            · rw [ofChars_symbol s ?_ ?_, ← Context.behind_symbol s]
              · exact hrest.after_symbol s
              · rintro rfl
                rw [isOfNumber_symbol] at hc
                exact Context.takesSign_behind.trans hc
              · intro hs rest hcs
                exact hpower ⟨hs, rest, hcs⟩
termination_by cs.length

/-- The text with bound letters written out holds the tokens of the bound text. -/
theorem spaced_substitute (b : Bindings) (text : String) :
    Spaced (ofText b text) (b.substitute text).toList := by
  have hspaced := @spaced_writeOut b text.toList [] [] (iff_of_true rfl rfl)
  rw [Bindings.pending_nil] at hspaced
  rw [ofText_eq, Bindings.substitute, String.toList_ofList]
  exact hspaced

end Token

namespace Expression

/-- With its bound letters written out, an accepted expression needs no bindings.  It has
the same tokens and blocks, only its source is another, and whatever is done with it has
the same outcomes. -/
theorem parseWith_substitute {b : Bindings} {text : String} {e : Expression}
    (h : parseWith b text = .ok e) :
    ∃ f, parseWith .empty (b.substitute text) = .ok f ∧
      f = { e with source := b.substitute text } ∧
      ∀ uses, outcomesOf (f.use uses).1 = outcomesOf (e.use uses).1 := by
  obtain ⟨tree, hreads⟩ := (Parsed.ofText h).exists_reads
  obtain ⟨_, _, htokens, hderives⟩ := parseWith_eq_ok h
  have hsame : Token.ofText .empty (b.substitute text) = Token.ofText b text := by
    rw [htokens] at hderives
    exact Token.resumes_of_alternates hderives.alternates (Token.spaced_substitute b text) .start
      nofun
  exact ⟨_, parseWith_of_ofText_eq h hsame, rfl, use_of_tokens_eq hreads rfl⟩

/-- A negative number at the start, after a subtraction, after a power and in a group. -/
theorem parseWith_substitute_negative :
    let b := Bindings.empty.insert 'a' (.ofText "-2")
    b.substitute "a-a**(a)" = "-2--2**(-2)" ∧
      ∃ e, parseWith b "a-a**(a)" = .ok e ∧
        parseWith .empty "-2--2**(-2)" = .ok { e with source := "-2--2**(-2)" } := by
  intro b
  have hsubstitute : b.substitute "a-a**(a)" = "-2--2**(-2)" := by decide +kernel
  have hfault : Structure.fault? (Token.ofText b "a-a**(a)") = none := by decide +kernel
  obtain ⟨e, hparse⟩ := exists_parseWith_eq_ok hfault
  obtain ⟨f, hf, rfl, _⟩ := parseWith_substitute hparse
  rw [hsubstitute] at hf
  exact ⟨hsubstitute, e, hparse, hf⟩

end Expression
end Stepwise
