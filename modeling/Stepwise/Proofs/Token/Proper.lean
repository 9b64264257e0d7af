import Stepwise.Proofs.Structure.Grammar
import Stepwise.Token.FromText

/-!
# The tokens of a text have their place in expressions

Whatever the text and the bindings, tokenizing gives numbers, the six operators
and the two parentheses only.
-/

namespace Stepwise.Token

variable {b : Bindings} {t : Token}

theorem proper_ofSymbol (s : Symbol) : (ofSymbol s).Proper := by
  cases s with
  | plus => exact .operator .add
  | minus => exact .operator .subtract
  | star => exact .operator .multiply
  | slash => exact .operator .divide
  | percent => exact .operator .remainder
  | opening => exact .opening
  | closing => exact .closing

theorem proper_of_mem_ofRun {run : List Char} (h : t ∈ ofRun b run) : t.Proper := by
  rw [ofRun] at h
  split at h
  · exact absurd h List.not_mem_nil
  · split at h
    · exact List.mem_singleton.mp h ▸ .number _
    · exact List.mem_singleton.mp h ▸ .number _

/-- What holds of the tokens of runs and of symbols, and of `**`, holds of all tokens. -/
theorem forall_mem_ofLexemes {P : Token → Prop} (hrun : ∀ run, ∀ t ∈ ofRun b run, P t)
    (hsymbol : ∀ s, P (ofSymbol s)) (hpower : P (operator .power)) {context : Context}
    {run : List Char} {lexemes : List Lexeme} : ∀ t ∈ ofLexemes b context run lexemes, P t := by
  fun_induction ofLexemes b context run lexemes with
  | case1 _ run => exact hrun run
  | case2 _ run cs rest ih => exact ih
  | case3 context run _ rest ih => exact List.forall_mem_append.mpr ⟨hrun run, ih⟩
  | case4 context run rest _ ih => exact ih
  | case5 context run rest _ ih =>
      exact List.forall_mem_append.mpr ⟨hrun run, List.forall_mem_cons.mpr ⟨hsymbol .minus, ih⟩⟩
  | case6 _ run rest ih =>
      exact List.forall_mem_append.mpr ⟨hrun run, List.forall_mem_cons.mpr ⟨hpower, ih⟩⟩
  | case7 _ run s rest _ _ ih =>
      exact List.forall_mem_append.mpr ⟨hrun run, List.forall_mem_cons.mpr ⟨hsymbol s, ih⟩⟩

theorem proper_of_mem_ofText (b : Bindings) (text : String) : ∀ t ∈ ofText b text, t.Proper :=
  forall_mem_ofLexemes (fun _ _ => proper_of_mem_ofRun) proper_ofSymbol (.operator .power)

end Stepwise.Token
