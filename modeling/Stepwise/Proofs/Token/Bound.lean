import Stepwise.Proofs.Token.Content

/-!
# Bindings and the tokens of a text

Bindings have no part in where the tokens of a text begin and end.  Substitution goes on
while the text is read, each time a number token is complete, and later a `*` looks back at
what has been read; all the same the outcome is that of two passes: the text is tokenized
without bindings, and then every token is looked at by itself (`ofText_eq_map_bound`).

The two runs are compared along the lexemes, in the same context and with the same number
token in progress.  Neither of these two ever depends on a binding, and that is all that
the induction needs.
-/

namespace Stepwise

/-- No number is written as a single letter, so that what a letter is replaced by is not a
letter again. -/
theorem Binary64.toText_ne_singleton (x : Binary64) {c : Char} (hc : c.isAlpha = true) :
    x.toText ≠ .singleton c := by
  intro htext
  cases hx : x.isFinite with
  | true =>
      have hliteral := literal_toChars hx
      have hchars : x.toChars = [c] := by
        rw [← String.toList_singleton, ← htext, toText, String.toList_ofList]
      have hletter := hliteral.letter?_eq_none
      rw [hchars, Bindings.letter?, if_pos hc] at hletter
      cases hletter
  | false =>
      have hlength := congrArg String.length htext
      rw [String.length_singleton] at hlength
      rcases toText_of_not_isFinite hx with h | h | h
      all_goals
        rw [h] at hlength
        exact absurd hlength (by decide)

namespace Token

/-- The token with bindings: a number token that is exactly one bound letter has the text
of the letter's number, and any other token is left as it is. -/
def bound (b : Bindings) (t : Token) : Token :=
  match t.kind, t.text.toList with
  | .number, [c] =>
      match b.get? c with
      | some x => if c.isAlpha then number x.toText else t
      | none => t
  | _, _ => t

variable {b other : Bindings} {t : Token} {c : Char} {run : List Char}

/-! ## A token by itself -/

theorem bound_letter {x : Binary64} (hc : c.isAlpha = true) (hx : b.get? c = some x) :
    (number (.singleton c)).bound b = number x.toText := by
  simp [bound, number, hx, hc]

/-- Only a number token that is one bound letter is another with bindings. -/
theorem bound_ne_self_iff :
    t.bound b ≠ t ↔
      ∃ c x, t = number (.singleton c) ∧ c.isAlpha = true ∧ b.get? c = some x := by
  constructor
  · intro hne
    obtain ⟨kind, text⟩ := t
    unfold bound at hne
    split at hne
    · next c hkind htext =>
      split at hne
      · next x hx =>
        split at hne
        · next hc =>
          refine ⟨c, x, ?_, hc, hx⟩
          have hkind : kind = .number := hkind
          have htext : text = .singleton c := by
            rw [← String.toList_inj, String.toList_singleton]
            exact htext
          rw [hkind, htext]
          rfl
        · exact absurd rfl hne
      · exact absurd rfl hne
    · exact absurd rfl hne
  · rintro ⟨c, x, rfl, hc, hx⟩ heq
    rw [bound_letter hc hx] at heq
    exact x.toText_ne_singleton hc (congrArg text heq)

theorem bound_eq_self (h : ∀ c x, t = number (.singleton c) → c.isAlpha = true →
    b.get? c ≠ some x) : t.bound b = t := by
  by_contra hne
  obtain ⟨c, x, ht, hc, hx⟩ := bound_ne_self_iff.mp hne
  exact h c x ht hc hx

theorem bound_of_isNumber_eq_false (h : t.isNumber = false) : t.bound b = t := by
  refine bound_eq_self ?_
  rintro c x rfl
  cases h

theorem kind_bound (b : Bindings) (t : Token) : (t.bound b).kind = t.kind := by
  by_cases hself : t.bound b = t
  · rw [hself]
  · obtain ⟨c, x, rfl, hc, hx⟩ := bound_ne_self_iff.mp hself
    rw [bound_letter hc hx]
    rfl

theorem isNumber_bound (b : Bindings) (t : Token) : (t.bound b).isNumber = t.isNumber := by
  rw [isNumber, kind_bound, isNumber]

/-- What a letter was replaced by is not replaced again, whatever letters are bound. -/
theorem bound_bound (h : t.bound b ≠ t) : (t.bound b).bound other = t.bound b := by
  obtain ⟨c, x, rfl, hc, hx⟩ := bound_ne_self_iff.mp h
  rw [bound_letter hc hx]
  refine bound_eq_self ?_
  rintro d _ heq hd
  exact absurd (congrArg text heq) (x.toText_ne_singleton hd)

theorem bound_congr (h : ∀ c, c.isAlpha = true → other.get? c = b.get? c) (t : Token) :
    t.bound other = t.bound b := by
  by_cases hself : t.bound b = t
  · rw [hself]
    refine bound_eq_self ?_
    rintro c x rfl hc hx
    rw [h c hc] at hx
    exact bound_ne_self_iff.mpr ⟨c, x, rfl, hc, hx⟩ hself
  · obtain ⟨c, x, rfl, hc, hx⟩ := bound_ne_self_iff.mp hself
    rw [bound_letter hc hx, bound_letter hc ((h c hc).trans hx)]

/-! ## All tokens of a text -/

theorem bound_number_ofList (b : Bindings) (run : List Char) :
    (number (.ofList run)).bound b =
      match b.resolve? run with
      | some x => number x.toText
      | none => number (.ofList run) := by
  match run with
  | [] => rfl
  | [c] =>
      have hbound : (number (.ofList [c])).bound b =
          match b.get? c with
          | some x => if c.isAlpha then number x.toText else number (.ofList [c])
          | none => number (.ofList [c]) := by
        simp [bound, number]
      rw [hbound, Bindings.resolve?, Bindings.letter?]
      cases hc : c.isAlpha with
      | true => rfl
      | false => cases b.get? c <;> rfl
  | c :: d :: run => simp [bound, number, Bindings.resolve?, Bindings.letter?]

theorem ofRun_eq_map_bound (b : Bindings) (run : List Char) :
    ofRun b run = (ofRun .empty run).map (bound b) := by
  by_cases hrun : run = []
  · subst hrun
    rfl
  · rw [ofRun_empty hrun, List.map_singleton, bound_number_ofList, ofRun,
      if_neg (by simpa using hrun)]
    cases b.resolve? run <;> rfl

theorem bound_ofSymbol (b : Bindings) (s : Symbol) : (ofSymbol s).bound b = ofSymbol s :=
  bound_of_isNumber_eq_false (by cases s <;> rfl)

theorem bound_operator (b : Bindings) (op : Operator) : (operator op).bound b = operator op :=
  bound_of_isNumber_eq_false rfl

/-- Lexemes are read in step, with bindings and without. -/
theorem ofLexemes_eq_map_bound (b : Bindings) (context : Context) (run : List Char)
    (lexemes : List Lexeme) :
    ofLexemes b context run lexemes = (ofLexemes .empty context run lexemes).map (bound b) := by
  fun_induction ofLexemes .empty context run lexemes with
  | case1 _ run => rw [ofLexemes, ofRun_eq_map_bound]
  | case2 _ run cs rest ih => rw [ofLexemes, ih]
  | case3 context run _ rest ih => rw [ofLexemes, ih, List.map_append, ← ofRun_eq_map_bound]
  | case4 context run rest hsign ih => rw [ofLexemes, if_pos hsign, ih]
  | case5 context run rest hsign ih =>
      rw [ofLexemes, if_neg hsign, ih, List.map_append, List.map_cons, ← ofRun_eq_map_bound,
        bound_ofSymbol]
  | case6 _ run rest ih =>
      rw [ofLexemes, ih, List.map_append, List.map_cons, ← ofRun_eq_map_bound, bound_operator]
  | case7 _ run s rest hminus hstar ih =>
      rw [ofLexemes, ih, List.map_append, List.map_cons, ← ofRun_eq_map_bound, bound_ofSymbol]
      · exact hminus
      · exact hstar

/-- The tokens of a text with bindings are those without, each number token that is one
bound letter with the text of its number.  So bindings change neither how many tokens there
are nor their order and kinds, no text that was put in is replaced again, and what is bound
but is no letter has no effect. -/
theorem ofText_eq_map_bound (b : Bindings) (text : String) :
    ofText b text = (ofText .empty text).map (bound b) ∧
      (ofText b text).map kind = (ofText .empty text).map kind ∧
      (∀ t ∈ ofText .empty text, t.bound b ≠ t ↔
        ∃ c x, t = number (.singleton c) ∧ c.isAlpha = true ∧ b.get? c = some x) ∧
      (∀ t ∈ ofText .empty text, t.bound b ≠ t → ∀ other, (t.bound b).bound other = t.bound b) ∧
      ∀ other : Bindings, (∀ c, c.isAlpha = true → other.get? c = b.get? c) →
        ofText other text = ofText b text := by
  have hmap : ∀ b, ofText b text = (ofText .empty text).map (bound b) :=
    fun b => ofLexemes_eq_map_bound b .start [] _
  have hkinds : (ofText b text).map kind = (ofText .empty text).map kind := by
    rw [hmap b, List.map_map]
    exact List.map_congr_left fun t _ => kind_bound b t
  refine ⟨hmap b, hkinds, fun _ _ => bound_ne_self_iff, fun _ _ hne other => bound_bound hne, ?_⟩
  intro other hother
  rw [hmap b, hmap other]
  exact List.map_congr_left fun t _ => bound_congr hother t

/-- A bound letter beside the same letter in the other case, a longer text with it, and a
digit and another character that are bound to no effect. -/
theorem ofText_eq_map_bound_letters :
    let letter := Bindings.empty.insert 'a' (.ofText "-2")
    let more := (letter.insert '5' (.ofText "3")).insert 'é' (.ofText "4")
    let tokens := [number "-2", operator .multiply, number "A", operator .subtract, number "aa",
      operator .add, number "5", operator .power, number "é"]
    (∀ c, c.isAlpha = true → more.get? c = letter.get? c) ∧
      ofText letter "a*A-aa+5**é" = tokens ∧ ofText more "a*A-aa+5**é" = tokens := by
  intro letter more tokens
  have hsame : ∀ c, c.isAlpha = true → more.get? c = letter.get? c := by
    intro c hc
    have hdigit : c ≠ '5' := by
      rintro rfl
      cases hc
    have haccent : c ≠ 'é' := by
      rintro rfl
      cases hc
    simp [more, hdigit, haccent]
  obtain ⟨hmap, _, _, _, hother⟩ := ofText_eq_map_bound letter "a*A-aa+5**é"
  have htokens : ofText letter "a*A-aa+5**é" = tokens := by
    rw [hmap]
    decide +kernel
  exact ⟨hsame, htokens, (hother more hsame).trans htokens⟩

end Token
end Stepwise
