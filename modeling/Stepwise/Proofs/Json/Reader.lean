import Stepwise.Proofs.Json.Grammar

/-!
# Reading JSON texts

A reader of any JSON text, from left to right, with the brackets that are open on a stack.  It
gives the tree that the text shows: a name that comes twice is there twice, and a number is the
decimal number that its digits say, for whoever wants the number to round.

Main statement: every text of a tree is read as that tree (`read?_of_isText`), so no text shows
two trees.
-/

namespace Stepwise.Json

open Decimal (Scale Stops)

/-! ## The reader -/

/-- A character of a word or a number. -/
def inWord (c : Char) : Bool := c.isAlphanum || c == '.' || c == '+' || c == '-'

/-- A number without its sign: no zero leads other digits, and a digit follows the point. -/
def unsigned? (cs : List Char) : Option Decimal :=
  let whole := cs.takeWhile Char.isDigit
  let fits := match cs.dropWhile Char.isDigit with
    | '.' :: after => after.head?.any Char.isDigit
    | _ => true
  if (whole == ['0'] || whole.head?.any (· != '0')) && fits then Decimal.read? cs else none

/-- The value of a word or a number. -/
def scalar? (word : List Char) : Option Tree :=
  if word = ['n', 'u', 'l', 'l'] then some .null
  else if word = ['t', 'r', 'u', 'e'] then some (.bool true)
  else if word = ['f', 'a', 'l', 's', 'e'] then some (.bool false)
  else match word with
    | '-' :: cs => (unsigned? cs).map (.number true)
    | cs => (unsigned? cs).map (.number false)

/-- A value without brackets, and what comes behind it. -/
def readAtom? : List Char → Option (Tree × List Char)
  | '"' :: rest =>
      match readText rest with
      | .ok (s, rest) => some (.text (.ofList s), skipBlanks rest)
      | .error _ => none
  | cs => (scalar? (cs.takeWhile inWord)).map (·, skipBlanks (cs.dropWhile inWord))

/-- The name of a member, and what comes behind its colon. -/
def readName? : List Char → Option (String × List Char)
  | '"' :: rest =>
      match readText rest with
      | .ok (name, rest) =>
          match skipBlanks rest with
          | ':' :: rest => some (.ofList name, skipBlanks rest)
          | _ => none
      | .error _ => none
  | _ => none

/-- A bracket that is open, with what has been read behind it: the items, or the members and the
name of the next one. -/
inductive Open where
  | array (items : List Tree)
  | object (members : List (String × Tree)) (name : String)

theorem length_readAtom?_le {cs rest : List Char} {v : Tree} (h : readAtom? cs = some (v, rest)) :
    rest.length ≤ cs.length := by
  unfold readAtom? at h
  split at h
  · split at h
    · next htext =>
      cases h
      have hlt := length_readText_lt htext
      exact (length_skipBlanks_le _).trans (Nat.le_succ_of_le hlt.le)
    · cases h
  · obtain ⟨v, -, heq⟩ := Option.map_eq_some_iff.mp h
    cases heq
    exact (length_skipBlanks_le _).trans (List.dropWhile_sublist _).length_le

theorem length_readName?_lt {cs rest : List Char} {name : String}
    (h : readName? cs = some (name, rest)) : rest.length < cs.length := by
  unfold readName? at h
  split at h
  · split at h
    · next afterName htext =>
      have hlt := length_readText_lt htext
      have hle := length_skipBlanks_le afterName
      split at h
      · next afterColon hcolon =>
        cases h
        have hcolon := congrArg List.length hcolon
        have hskip := length_skipBlanks_le afterColon
        rw [List.length_cons] at hcolon ⊢
        omega
      · cases h
    · cases h
  · cases h

theorem length_skipBlanks_lt (c : Char) (rest : List Char) :
    (skipBlanks rest).length < (c :: rest).length :=
  Nat.lt_succ_of_le (length_skipBlanks_le rest)

mutual

/-- The tree of a text, from the start of a value on. -/
def readTree (outer : List Open) (cs : List Char) : Option Tree :=
  match cs with
  | '[' :: rest => openArray outer (skipBlanks rest)
  | '{' :: rest => openObject outer (skipBlanks rest)
  | cs =>
      match _h : readAtom? cs with
      | some (v, rest) => goOn outer v rest
      | none => none
termination_by (cs.length, 1)
decreasing_by
  · exact .left _ _ (length_skipBlanks_lt ..)
  · exact .left _ _ (length_skipBlanks_lt ..)
  · rcases Nat.lt_or_eq_of_le (length_readAtom?_le _h) with hlt | heq
    · exact .left _ _ hlt
    · rw [heq]
      exact .right _ Nat.zero_lt_one

/-- ... from behind the bracket of an array on. -/
def openArray (outer : List Open) (cs : List Char) : Option Tree :=
  match cs with
  | ']' :: rest => goOn outer (.array []) (skipBlanks rest)
  | cs => readTree (.array [] :: outer) cs
termination_by (cs.length, 2)
decreasing_by
  · exact .left _ _ (length_skipBlanks_lt ..)
  · exact .right _ Nat.one_lt_two

/-- ... from behind the brace of an object on. -/
def openObject (outer : List Open) (cs : List Char) : Option Tree :=
  match cs with
  | '}' :: rest => goOn outer (.object []) (skipBlanks rest)
  | cs => nextMember outer [] cs
termination_by (cs.length, 2)
decreasing_by
  · exact .left _ _ (length_skipBlanks_lt ..)
  · exact .right _ Nat.one_lt_two

/-- ... from the name of a member on. -/
def nextMember (outer : List Open) (members : List (String × Tree)) (cs : List Char) :
    Option Tree :=
  match _h : readName? cs with
  | some (name, rest) => readTree (.object members name :: outer) rest
  | none => none
termination_by (cs.length, 1)
decreasing_by exact .left _ _ (length_readName?_lt _h)

/-- ... from behind a value on. -/
def goOn (outer : List Open) (v : Tree) (cs : List Char) : Option Tree :=
  match outer, cs with
  | [], [] => some v
  | .array items :: outer, ',' :: rest =>
      readTree (.array (items ++ [v]) :: outer) (skipBlanks rest)
  | .array items :: outer, ']' :: rest => goOn outer (.array (items ++ [v])) (skipBlanks rest)
  | .object members name :: outer, ',' :: rest =>
      nextMember outer (members ++ [(name, v)]) (skipBlanks rest)
  | .object members name :: outer, '}' :: rest =>
      goOn outer (.object (members ++ [(name, v)])) (skipBlanks rest)
  | _, _ => none
termination_by (cs.length, 0)
decreasing_by all_goals exact .left _ _ (length_skipBlanks_lt ..)

end

/-- The tree of a JSON text. -/
def read? (cs : List Char) : Option Tree := readTree [] (skipBlanks cs)

variable {v : Tree} {vs items : List Tree} {ms members : List (String × Tree)} {outer : List Open}
  {cs rest behind word gap : List Char} {name : String} {negative : Bool} {d : Decimal} {p : Part}

/-! ## White space -/

theorem stops_of_gap (hgap : Gap gap) : Stops inWord gap := by
  have hblank : ∀ c ∈ [' ', '\t', '\n', '\r'], inWord c = false := by simp [inWord]
  exact fun c hc => hblank c (hgap c (List.mem_of_head? hc))

theorem stops_gap {c : Char} (hgap : Gap gap) (hc : inWord c = false) (rest : List Char) :
    Stops inWord (gap ++ c :: rest) := by
  cases gap with
  | nil =>
      rintro d ⟨⟩
      exact hc
  | cons e gap =>
      rintro d ⟨⟩
      exact stops_of_gap hgap e rfl

/-! ## Numbers -/

theorem Whole.fits {whole : List Char} (h : Whole whole) :
    (whole == ['0'] || whole.head?.any (· != '0')) = true := by
  cases h with
  | zero => rfl
  | positive hfirst _ =>
      rw [Bool.or_eq_true]
      exact .inr (bne_iff_ne.mpr hfirst)

/-- What comes behind the whole part of a number: no digit, and a point only before one. -/
theorem Places.fits {fraction scale : List Char} {exponent : Int} (h : Places fraction)
    (hscale : Scale scale exponent) : Stops Char.isDigit (fraction ++ scale) ∧
      (match fraction ++ scale with
        | '.' :: after => after.head?.any Char.isDigit
        | _ => true) = true := by
  cases h with
  | none =>
      refine ⟨hscale.stops, ?_⟩
      rw [List.nil_append]
      split
      · next heq => exact absurd (hscale.head?_eq '.' rfl) (by decide)
      · rfl
  | @point digits hne hdigits =>
      obtain ⟨c, more, rfl⟩ := List.exists_cons_of_ne_nil hne
      refine ⟨?_, hdigits c List.mem_cons_self⟩
      rintro d ⟨⟩
      rfl

theorem unsigned?_of_showsUnsigned (h : ShowsUnsigned d cs) : unsigned? cs = some d := by
  cases h with
  | @intro whole fraction scale exponent hwhole hplaces hscale =>
      obtain ⟨hstops, hfits⟩ := hplaces.fits hscale
      have hnumeral := Decimal.Numeral.intro hwhole.isDigit hplaces.toFraction
        (List.append_ne_nil_of_left_ne_nil hwhole.ne_nil _) hscale
      simp only [unsigned?]
      rw [hstops.takeWhile_append hwhole.isDigit, hstops.dropWhile_append hwhole.isDigit, hfits,
        hwhole.fits, Bool.and_self, if_pos rfl, Decimal.read?_of_numeral hnumeral]

theorem ShowsUnsigned.exists_cons (h : ShowsUnsigned d cs) :
    ∃ c more, cs = c :: more ∧ c.isDigit = true := by
  cases h with
  | @intro whole fraction scale exponent hwhole _ _ =>
      obtain ⟨c, more, rfl⟩ := List.exists_cons_of_ne_nil hwhole.ne_nil
      exact ⟨c, _, rfl, hwhole.isDigit c List.mem_cons_self⟩

theorem scalar?_of_showsNumber (h : ShowsNumber negative d cs) :
    scalar? cs = some (.number negative d) := by
  cases h with
  | positive h =>
      have hread := unsigned?_of_showsUnsigned h
      obtain ⟨c, more, rfl, hc⟩ := h.exists_cons
      have hne : c ≠ 'n' ∧ c ≠ 't' ∧ c ≠ 'f' ∧ c ≠ '-' := by
        refine ⟨?_, ?_, ?_, ?_⟩ <;> (rintro rfl; exact absurd hc (by decide))
      simp [scalar?, hread, hne]
  | negative h => simp [scalar?, unsigned?_of_showsUnsigned h]

theorem inWord_of_isDigit {c : Char} (h : c.isDigit = true) : inWord c = true := by
  simp [inWord, Char.isAlphanum, h]

theorem Scale.inWord {scale : List Char} {exponent : Int} (h : Scale scale exponent) :
    ∀ c ∈ scale, inWord c = true := by
  cases h with
  | none => nofun
  | @marked mark sign digits negative hmark hsign _ hdigits =>
      have hsign : ∀ c ∈ sign, Json.inWord c = true := by
        cases hsign with
        | none => nofun
        | plus => exact List.forall_mem_singleton.mpr rfl
        | minus => exact List.forall_mem_singleton.mpr rfl
      refine List.forall_mem_cons.mpr ⟨?_, List.forall_mem_append.mpr ⟨hsign, ?_⟩⟩
      · rcases hmark with rfl | rfl <;> rfl
      · exact fun c hc => inWord_of_isDigit (hdigits c hc)

theorem ShowsUnsigned.inWord (h : ShowsUnsigned d cs) : ∀ c ∈ cs, inWord c = true := by
  cases h with
  | @intro whole fraction scale exponent hwhole hplaces hscale =>
      have hfraction : ∀ c ∈ fraction, Json.inWord c = true := by
        cases hplaces with
        | none => nofun
        | point _ hdigits =>
            exact List.forall_mem_cons.mpr ⟨rfl, fun c hc => inWord_of_isDigit (hdigits c hc)⟩
      exact List.forall_mem_append.mpr ⟨fun c hc => inWord_of_isDigit (hwhole.isDigit c hc),
        List.forall_mem_append.mpr ⟨hfraction, Scale.inWord hscale⟩⟩

theorem ShowsNumber.inWord (h : ShowsNumber negative d cs) : ∀ c ∈ cs, inWord c = true := by
  cases h with
  | positive h => exact h.inWord
  | negative h => exact List.forall_mem_cons.mpr ⟨rfl, h.inWord⟩

theorem ShowsNumber.ne_nil (h : ShowsNumber negative d cs) : cs ≠ [] := by
  cases h with
  | positive h =>
      obtain ⟨c, more, rfl, -⟩ := h.exists_cons
      exact List.cons_ne_nil c more
  | negative _ => exact List.cons_ne_nil _ _

/-! ## Values without brackets -/

theorem readTree_of_readAtom? {c : Char} (hbracket : c ≠ '[') (hbrace : c ≠ '{')
    (h : readAtom? (c :: cs) = some (v, rest)) : readTree outer (c :: cs) = goOn outer v rest := by
  rw [readTree]
  · split
    · next heq =>
      cases h.symm.trans heq
      rfl
    · next heq => cases h.symm.trans heq
  · exact fun _ heq => hbracket (List.cons.inj heq).1
  · exact fun _ heq => hbrace (List.cons.inj heq).1

/-- A word or a number is read up to where it ends. -/
theorem readTree_word (hne : word ≠ []) (hword : ∀ c ∈ word, inWord c = true)
    (hv : scalar? word = some v) (hrest : Stops inWord rest) :
    readTree outer (word ++ rest) = goOn outer v (skipBlanks rest) := by
  have htake := hrest.takeWhile_append hword
  have hdrop := hrest.dropWhile_append hword
  obtain ⟨c, more, rfl⟩ := List.exists_cons_of_ne_nil hne
  have hc := hword c List.mem_cons_self
  have hother : c ≠ '"' ∧ c ≠ '[' ∧ c ≠ '{' := by
    refine ⟨?_, ?_, ?_⟩ <;> (rintro rfl; exact absurd hc (by decide))
  have hread : readAtom? (c :: (more ++ rest)) = some (v, skipBlanks rest) := by
    rw [List.cons_append] at htake hdrop
    rw [readAtom?, htake, hdrop, hv]
    · rfl
    · exact fun _ heq => hother.1 (List.cons.inj heq).1
  exact readTree_of_readAtom? hother.2.1 hother.2.2 hread

theorem readTree_text {s : String} (h : Spells s.toList cs) (rest : List Char) :
    readTree outer ('"' :: (cs ++ '"' :: rest)) = goOn outer (.text s) (skipBlanks rest) := by
  refine readTree_of_readAtom? (by decide) (by decide) ?_
  simp only [readAtom?, readText_of_spells h, String.ofList_toList]

/-! ## Where a part begins -/

theorem Shows.exists_cons (h : Shows (.value v) cs) :
    ∃ c more, cs = c :: more ∧ isBlank c = false ∧ c ≠ ']' := by
  have hword : ∀ {c}, inWord c = true → isBlank c = false ∧ c ≠ ']' := by
    intro c hc
    constructor
    · refine Bool.eq_false_iff.mpr fun hblank => ?_
      simp only [isBlank, Bool.or_eq_true, beq_iff_eq] at hblank
      rcases hblank with ((rfl | rfl) | rfl) | rfl <;> exact absurd hc (by decide)
    · rintro rfl
      exact absurd hc (by decide)
  cases h with
  | null => exact ⟨_, _, rfl, by decide⟩
  | isTrue => exact ⟨_, _, rfl, by decide⟩
  | isFalse => exact ⟨_, _, rfl, by decide⟩
  | number h =>
      obtain ⟨c, more, rfl⟩ := List.exists_cons_of_ne_nil h.ne_nil
      exact ⟨c, more, rfl, hword (h.inWord c List.mem_cons_self)⟩
  | text _ => exact ⟨_, _, rfl, by decide⟩
  | emptyArray _ => exact ⟨_, _, rfl, by decide⟩
  | array _ => exact ⟨_, _, rfl, by decide⟩
  | emptyObject _ => exact ⟨_, _, rfl, by decide⟩
  | object _ => exact ⟨_, _, rfl, by decide⟩

theorem Shows.skipBlanks_append (h : Shows (.value v) cs) (hgap : Gap gap) (rest : List Char) :
    skipBlanks (gap ++ (cs ++ rest)) = cs ++ rest := by
  obtain ⟨c, more, rfl, hblank, -⟩ := h.exists_cons
  exact skipBlanks_gap_cons hgap hblank (more ++ rest)

theorem Shows.openArray_eq (h : Shows (.items vs) cs) (rest : List Char) :
    openArray outer (skipBlanks (cs ++ rest)) =
      readTree (.array [] :: outer) (skipBlanks (cs ++ rest)) := by
  have hvalue : ∀ {v gap cs}, Gap gap → Shows (.value v) cs → ∀ rest,
      openArray outer (skipBlanks (gap ++ (cs ++ rest))) =
        readTree (.array [] :: outer) (skipBlanks (gap ++ (cs ++ rest))) := by
    intro v gap cs hgap hv rest
    rw [hv.skipBlanks_append hgap]
    obtain ⟨c, more, rfl, -, hne⟩ := hv.exists_cons
    rw [List.cons_append, openArray]
    exact fun _ heq => hne (List.cons.inj heq).1
  cases h with
  | lastItem hgap hv _ =>
      rw [List.append_assoc, List.append_assoc]
      exact hvalue hgap hv _
  | item hgap hv _ _ =>
      rw [List.append_assoc, List.append_assoc]
      exact hvalue hgap hv _

theorem ShowsName.readName?_append {front : List Char} (h : ShowsName name front)
    (rest : List Char) : ∃ more, skipBlanks (front ++ rest) = '"' :: more ∧
      readName? ('"' :: more) = some (name, skipBlanks rest) := by
  cases h with
  | @intro gap spelled gap' hgap hspelled hgap' =>
      refine ⟨spelled ++ '"' :: (gap' ++ ':' :: rest), ?_, ?_⟩
      · rw [List.append_assoc, List.cons_append, skipBlanks_gap_cons hgap rfl, List.append_assoc,
          List.cons_append, List.append_assoc]
        rfl
      · simp only [readName?, readText_of_spells hspelled,
          skipBlanks_gap_cons hgap' (show isBlank ':' = false from rfl), String.ofList_toList]

theorem ShowsName.nextMember_eq {front : List Char} (h : ShowsName name front)
    (rest : List Char) : nextMember outer members (skipBlanks (front ++ rest)) =
      readTree (.object members name :: outer) (skipBlanks rest) := by
  obtain ⟨more, hskip, hread⟩ := h.readName?_append rest
  rw [hskip, nextMember]
  split
  · next heq =>
    cases hread.symm.trans heq
    rfl
  · next heq => cases hread.symm.trans heq

theorem Shows.openObject_eq (h : Shows (.members ms) cs) (rest : List Char) :
    openObject outer (skipBlanks (cs ++ rest)) = nextMember outer [] (skipBlanks (cs ++ rest)) := by
  have hname : ∀ {name front}, ShowsName name front → ∀ rest,
      openObject outer (skipBlanks (front ++ rest)) =
        nextMember outer [] (skipBlanks (front ++ rest)) := by
    intro name front hname rest
    obtain ⟨more, hskip, -⟩ := hname.readName?_append rest
    rw [hskip, openObject]
    exact fun _ heq => absurd (List.cons.inj heq).1 (by decide)
  cases h with
  | lastMember h _ _ _ =>
      rw [List.append_assoc]
      exact hname h _
  | member h _ _ _ _ =>
      rw [List.append_assoc]
      exact hname h _

/-! ## Parts -/

/-- A part of a text is read up to where it ends, in front of what does not go on with a word:
the items of an array up to its bracket, the members of an object up to its brace. -/
def Part.IsRead : Part → List Char → Prop
  | .value v, cs => ∀ outer rest, Stops inWord rest →
      readTree outer (cs ++ rest) = goOn outer v (skipBlanks rest)
  | .items vs, cs => ∀ outer items rest,
      readTree (.array items :: outer) (skipBlanks (cs ++ ']' :: rest)) =
        goOn outer (.array (items ++ vs)) (skipBlanks rest)
  | .members ms, cs => ∀ outer members rest,
      nextMember outer members (skipBlanks (cs ++ '}' :: rest)) =
        goOn outer (.object (members ++ ms)) (skipBlanks rest)

theorem isRead_of_shows (h : Shows p cs) : p.IsRead cs := by
  induction h with
  | null =>
      exact fun outer rest hrest => readTree_word nofun (List.all_eq_true.mp rfl) rfl hrest
  | isTrue =>
      exact fun outer rest hrest => readTree_word nofun (List.all_eq_true.mp rfl) rfl hrest
  | isFalse =>
      exact fun outer rest hrest => readTree_word nofun (List.all_eq_true.mp rfl) rfl hrest
  | number h =>
      exact fun outer rest hrest => readTree_word h.ne_nil h.inWord (scalar?_of_showsNumber h) hrest
  | text h =>
      intro outer rest _
      rw [List.cons_append, List.append_assoc]
      exact readTree_text h rest
  | emptyArray hgap =>
      intro outer rest _
      rw [List.cons_append, List.append_assoc, List.singleton_append, readTree,
        skipBlanks_gap_cons hgap (show isBlank ']' = false from rfl), openArray]
  | array hitems ih =>
      intro outer rest _
      rw [List.cons_append, List.append_assoc, readTree, hitems.openArray_eq]
      exact ih outer [] rest
  | emptyObject hgap =>
      intro outer rest _
      rw [List.cons_append, List.append_assoc, List.singleton_append, readTree,
        skipBlanks_gap_cons hgap (show isBlank '}' = false from rfl), openObject]
  | object hmembers ih =>
      intro outer rest _
      rw [List.cons_append, List.append_assoc, readTree, hmembers.openObject_eq]
      exact ih outer [] rest
  | lastItem hgap hv hgap' ih =>
      intro outer items rest
      rw [List.append_assoc, List.append_assoc, hv.skipBlanks_append hgap,
        ih _ _ (stops_gap hgap' rfl rest), skipBlanks_gap_cons hgap' rfl, goOn]
  | item hgap hv hgap' _ ih ihmore =>
      intro outer items rest
      rw [List.append_assoc, List.append_assoc, List.append_assoc, hv.skipBlanks_append hgap,
        List.cons_append, ih _ _ (stops_gap hgap' rfl _), skipBlanks_gap_cons hgap' rfl, goOn,
        ihmore, List.append_assoc, List.singleton_append]
  | lastMember hname hgap hv hgap' ih =>
      intro outer members rest
      rw [List.append_assoc, hname.nextMember_eq, List.append_assoc, List.append_assoc,
        hv.skipBlanks_append hgap, ih _ _ (stops_gap hgap' rfl rest),
        skipBlanks_gap_cons hgap' rfl, goOn]
  | member hname hgap hv hgap' _ ih ihmore =>
      intro outer members rest
      rw [List.append_assoc, hname.nextMember_eq, List.append_assoc, List.append_assoc,
        List.append_assoc, hv.skipBlanks_append hgap, List.cons_append,
        ih _ _ (stops_gap hgap' rfl _), skipBlanks_gap_cons hgap' rfl, goOn, ihmore,
        List.append_assoc, List.singleton_append]

/-- Every text of a tree is read as that tree. -/
theorem read?_of_isText (h : IsText v cs) : read? cs = some v := by
  cases h with
  | @intro gap cs gap' hgap hv hgap' =>
      have hblank : skipBlanks gap' = [] := by
        rw [← List.append_nil gap', skipBlanks_gap hgap']
        rfl
      have hread := isRead_of_shows hv [] gap' (stops_of_gap hgap')
      rw [read?, hv.skipBlanks_append hgap, hread, hblank, goOn]

end Stepwise.Json
