import Stepwise.Proofs.Expression.Run
import Stepwise.Proofs.Json.Members
import Stepwise.Proofs.Token.RoundTrip
import Stepwise.Proofs.Text.Trim

/-!
# A number in the bindings

A plain number can be written where it is used, `1.5`, or be bound to a letter that
stands there, `a,{"a":1.5}`.  In the expression it is read as the number nearest to it.
On its way through the bindings it is split off, trimmed, read as a member of an object,
written out as the text of a token and read again.  All of that is without loss but for
the one reading of the JSON number, so the two ways agree just where that reading gives
the nearest number (`evaluate_boundTo_iff`).

It does so for every exact number.  It does not for every plain number: with 16 digits
the significand may be no binary64 number, and what is read is off by one in the last
place (`evaluate_boundTo_ne`).
-/

namespace Stepwise

open Json (Plain IsExact number?)
open Structure (IsLiteral)

variable {negative : Bool} {d : Decimal} {cs : List Char}

/-! ## Evaluating a single number -/

namespace Expression

variable {input text : String} {suffix : Option (List Char)} {b : Bindings}

theorem evaluate_of_ofText_eq (hsplit : Bindings.split input.toList = (cs, suffix))
    (hbindings : Bindings.ofSuffix suffix = .ok b)
    (htokens : Token.ofText b (.ofList cs) = [.number text]) (hliteral : IsLiteral text) :
    evaluate input = .ok (.ofText text) := by
  have hfault : Structure.fault? (Token.ofText b (.ofList cs)) = none := by
    rw [htokens]
    exact Structure.fault?_eq_none_of_derives (.single (.number hliteral))
  obtain ⟨e, hparse⟩ := exists_parseWith_eq_ok hfault
  obtain ⟨_, _, he, _⟩ := parseWith_eq_ok hparse
  have hreads : Reads 3 { e with source := input }.tokens (.literal text) := by
    rw [he, htokens]
    exact (Reads.literal text).lift (Nat.zero_le 3)
  have hvalue := (after_stepsNeeded hreads).2
  have hparsed : parse input = .ok { e with source := input } := by
    simp only [parse, hsplit, hbindings, hparse]
    rfl
  simp only [evaluate, hparsed, evaluateAll_eq hreads, evaluation, hvalue]
  rfl

/-! ## Written in the expression -/

theorem ne_comma_of_mem_unsigned (h : Decimal.Unsigned cs) : ∀ c ∈ cs, c ≠ ',' := by
  rintro c hc rfl
  rcases h.isDigit_or_eq_point ',' hc with hdigit | hpoint
  · exact absurd hdigit (by decide)
  · exact absurd hpoint (by decide)

theorem ne_comma_of_mem_literal (h : Decimal.Literal cs) : ∀ c ∈ cs, c ≠ ',' := by
  cases h with
  | positive h => exact ne_comma_of_mem_unsigned h
  | negative h => exact List.forall_mem_cons.mpr ⟨by decide, ne_comma_of_mem_unsigned h⟩

theorem split_of_forall_ne_comma (h : ∀ c ∈ cs, c ≠ ',') : Bindings.split cs = (cs, none) := by
  have hdrop : cs.dropWhile (· != ',') = [] :=
    List.dropWhile_eq_nil_iff.mpr fun c hc => bne_iff_ne.mpr (h c hc)
  rw [Bindings.split, hdrop]

/-- A literal has the value that it is read as. -/
theorem evaluate_of_literal (h : Decimal.Literal text.toList) :
    evaluate text = .ok (.ofText text) := by
  refine evaluate_of_ofText_eq (split_of_forall_ne_comma (ne_comma_of_mem_literal h)) rfl ?_ h
  have htokens := @Token.ofChars_literal .empty .start [] _ nofun h
  rw [List.append_nil, Token.ofChars_nil, Token.ofRun_literal h, String.ofList_toList] at htokens
  rw [String.ofList_toList, Token.ofText_eq, htokens]

/-! ## Written in the bindings -/

/-- The input that binds a letter to a number and is that letter. -/
def boundTo (text : String) : String := "a,\x7b\"a\":" ++ text ++ "\x7d"

theorem toList_boundTo (text : String) :
    (boundTo text).toList = 'a' :: ',' :: Json.single text.toList := by
  simp [boundTo, Json.single]

theorem trim_single (cs : List Char) : Text.trim (Json.single cs) = Json.single cs := by
  have htrim := @Text.trim_around [] [] ('"' :: 'a' :: '"' :: ':' :: cs) '{' '}' nofun nofun
    (by decide) (by decide)
  rwa [List.append_nil] at htrim

theorem ofText_letter (b : Bindings) (x : Binary64) :
    Token.ofText (b.insert 'a' x) (.ofList ['a']) = [.number x.toText] := by
  have hletter : Lexeme.IsText 'a' := by
    constructor <;> decide
  have hresolve : (b.insert 'a' x).resolve? ['a'] = some x := by
    rw [Bindings.resolve?, Bindings.letter?, if_pos (by decide)]
    exact Bindings.get?_insert b 'a' x 'a'
  rw [Token.ofText_eq, String.toList_ofList, Token.ofChars_text hletter, Token.ofChars_nil,
    Token.ofRun, List.nil_append, hresolve]
  rfl

/-- The value of a bound number is what the JSON reader makes of its text. -/
theorem evaluate_boundTo_iff (h : Plain negative d text.toList) {x : Binary64} :
    evaluate (boundTo text) = .ok x ↔ number? text.toList = some x := by
  obtain ⟨numeral?, hread, hfinite, _⟩ := h.exists_numeral?
  -- the numeral before the closing brace is the one that the text is as a whole
  have hdocument := Json.readDocument_single ((Json.readValue_append h _).trans
    (hread ['}'] (Json.ends_brace [])))
  have hwhole := hread [] Json.ends_nil
  have hsplit : Bindings.split (boundTo text).toList = (['a'], some (Json.single text.toList)) := by
    rw [toList_boundTo]
    rfl
  rw [List.append_nil] at hwhole
  rw [Json.number?_eq hwhole]
  cases numeral? with
  | none =>
      simp only [evaluate, parse, hsplit, Bindings.ofSuffix, Bindings.ofJson, trim_single,
        hdocument, reduceCtorEq, Option.map_none]
  | some m =>
      have hbindings : Bindings.ofSuffix (some (Json.single text.toList)) =
          .ok (Bindings.empty.insert 'a' m.value) := by
        simp only [Bindings.ofSuffix, Bindings.ofJson, trim_single, hdocument]
        rfl
      have hvalue : evaluate (boundTo text) = .ok (.ofText m.value.toText) := by
        refine evaluate_of_ofText_eq hsplit hbindings ?_ ?_
        · exact ofText_letter _ _
        · rw [IsLiteral, Binary64.toText, String.toList_ofList]
          exact Binary64.literal_toChars (hfinite m rfl)
      have hnumber := Binary64.isNaN_eq_false_of_isFinite (hfinite m rfl)
      rw [hvalue, Binary64.ofText, Binary64.toText, String.toList_ofList,
        Binary64.ofChars_toChars _ hnumber]
      simp

/-! ## One number, two ways -/

/-- A plain number has as its value what it is read as: in the expression the number
nearest to it, in the bindings what the JSON reader makes of it.  For an exact number these
are the same 64 bits. -/
theorem evaluate_boundTo (h : Plain negative d text.toList) :
    evaluate text = .ok (.ofText text) ∧
      (∀ x, evaluate (boundTo text) = .ok x ↔ number? text.toList = some x) ∧
      (IsExact d → evaluate (boundTo text) = .ok (.ofText text)) := by
  refine ⟨evaluate_of_literal h.literal, fun x => evaluate_boundTo_iff h, ?_⟩
  intro hexact
  exact (evaluate_boundTo_iff h).mpr (h.number?_of_isExact hexact)

/-- A sign, and a zero at the end. -/
theorem evaluate_boundTo_places :
    Plain true ⟨1250, -2⟩ "-12.50".toList ∧ IsExact ⟨1250, -2⟩ ∧
      evaluate "-12.50" = .ok (.ofText "-12.5") ∧
      evaluate (boundTo "-12.50") = .ok (.ofText "-12.5") := by
  have hplain : Plain true ⟨1250, -2⟩ "-12.50".toList :=
    @Plain.intro ['1', '2'] ['.', '5', '0'] true
      (.positive (by decide) (List.all_eq_true.mp rfl))
      (.point (by decide) (List.all_eq_true.mp rfl))
  have hexact : IsExact ⟨1250, -2⟩ := by decide
  have hvalue : Binary64.ofText "-12.50" = .ofText "-12.5" := by decide +kernel
  obtain ⟨hliteral, _, hbound⟩ := evaluate_boundTo hplain
  rw [hvalue] at hliteral hbound
  exact ⟨hplain, hexact, hliteral, hbound hexact⟩

/-- A significand of 16 digits that is no binary64 number, and one place: the reader of
bindings rounds it before it divides, and is off by one in the last place. -/
theorem evaluate_boundTo_ne :
    Plain false ⟨9007199254740999, -1⟩ "900719925474099.9".toList ∧
      (Binary64.ofText "900719925474099.9").isFinite = true ∧
      evaluate "900719925474099.9" = .ok (.ofBits 0x430999999999999f) ∧
      evaluate (boundTo "900719925474099.9") = .ok (.ofBits 0x43099999999999a0) ∧
      evaluate (boundTo "900719925474099.9") ≠ evaluate "900719925474099.9" := by
  have hwhole : Json.Whole "900719925474099".toList :=
    @Json.Whole.positive '9' "00719925474099".toList (by decide) (List.all_eq_true.mp rfl)
  have hplaces : Json.Places ".9".toList :=
    @Json.Places.point ['9'] (by decide) (List.all_eq_true.mp rfl)
  have hplain : Plain false ⟨9007199254740999, -1⟩ "900719925474099.9".toList :=
    .intro false hwhole hplaces
  have hnumber : number? "900719925474099.9".toList = some (.ofBits 0x43099999999999a0) := by
    have hread := Json.number?_eq (Json.readNumber_append hwhole hplaces Json.ends_nil false)
    have hgathered : Json.gathered "900719925474099".toList ['9'] =
        ⟨9007199254740999, .negSucc 0⟩ := Json.gathered_eq (by decide)
    have hquotient : { (Binary64.ofNat 9007199254740999).div (Json.powerOfTen 1) with
        negative := false } = Binary64.ofBits 0x43099999999999a0 := by decide +kernel
    have hscaled : Json.scaleDown (.ofNat 9007199254740999) 1 =
        (Binary64.ofNat 9007199254740999).div (Json.powerOfTen 1) := by
      rw [Json.scaleDown, if_pos (by decide)]
    refine hread.trans ?_
    rw [show ".9".toList.tail = ['9'] from rfl, hgathered, Json.numeral?_places, hscaled]
    exact congrArg some hquotient
  have hnearest : Binary64.ofText "900719925474099.9" = .ofBits 0x430999999999999f := by
    decide +kernel
  have hfinite : (Binary64.ofText "900719925474099.9").isFinite = true := by
    rw [hnearest]
    decide
  have hliteral := evaluate_of_literal hplain.literal
  have hbound := (evaluate_boundTo_iff hplain).mpr hnumber
  rw [hnearest] at hliteral
  refine ⟨hplain, hfinite, hliteral, hbound, ?_⟩
  rw [hliteral, hbound]
  decide

end Expression
end Stepwise
