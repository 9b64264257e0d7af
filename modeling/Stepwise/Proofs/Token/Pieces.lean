import Mathlib.Data.Nat.Find
import Stepwise.Proofs.Token.Places

/-!
# The pieces of a text

Which tokens a text has can be told without going through it.  Its characters fall into
pieces: the longest runs of characters that belong to number tokens, the longest runs of
`*`, and each other symbol by itself; blanks are in no piece.  What a character is depends
on its place in the text and on nothing that happened on the way there (`isOfNumber`), so
that the pieces are facts about the text.

Main statement: the tokens of a text are those of its pieces, one piece after the other.
Pieces do not overlap, so there is one list of them, and going through the text from the
start finds it: wherever no run is cut in two, the first piece is read and the rest begins
at its end.
-/

namespace Stepwise

open Lexeme

/-! ## Runs and pieces -/

/-- The character at a place belongs to a number token: it is a sign, or neither a symbol
nor a blank. -/
def numberAt (text : List Char) (place : Nat) : Bool :=
  numberAfter (text.take place).reverse (text.drop place)

/-- The character at a place is a `*`. -/
def starAt (text : List Char) (place : Nat) : Bool := text[place]? == some '*'

/-- All places from `start` up to, not including, `stop` have a property, and neither the
place before them nor the one after them has it. -/
structure MaximalRun (p : Nat → Bool) (start stop : Nat) : Prop where
  lt : start < stop
  holds : ∀ i, start ≤ i → i < stop → p i = true
  before : ∀ i, i + 1 = start → p i = false
  after : p stop = false

/-- A stretch of a text that makes up tokens of its own. -/
inductive Piece where
  /-- Characters that belong to one number token. -/
  | number (start stop : Nat)
  /-- Characters `*` that touch. -/
  | stars (start stop : Nat)
  | symbol (place : Nat) (c : Char)
deriving DecidableEq, Repr

namespace Piece

def start : Piece → Nat
  | number start _ => start
  | stars start _ => start
  | symbol place _ => place

/-- One past the last place. -/
def stop : Piece → Nat
  | number _ stop => stop
  | stars _ stop => stop
  | symbol place _ => place + 1

/-- The tokens that a piece makes up.  Of `*` that touch, two and two are one operator. -/
def tokens (text : List Char) : Piece → List Token
  | number start stop => [⟨.number, .ofList ((text.drop start).take (stop - start))⟩]
  | stars start stop =>
      List.replicate ((stop - start) / 2) ⟨.operator, "**"⟩ ++
        List.replicate ((stop - start) % 2) ⟨.operator, "*"⟩
  | symbol _ c => [⟨if c = '(' ∨ c = ')' then .parenthesis else .operator, .singleton c⟩]

/-- A piece of the text: no run could be longer, and a symbol by itself is neither a `*`
nor a sign. -/
inductive IsOf (text : List Char) : Piece → Prop
  | number {start stop : Nat} :
      MaximalRun (numberAt text) start stop → IsOf text (.number start stop)
  | stars {start stop : Nat} :
      MaximalRun (starAt text) start stop → IsOf text (.stars start stop)
  | symbol {place : Nat} {c : Char} : text[place]? = some c → c ∈ symbols → c ≠ '*' →
      numberAt text place = false → IsOf text (.symbol place c)

/-- The pieces of the text that begin at a place or after it, in their order. -/
structure Lists (text : List Char) (place : Nat) (pieces : List Piece) : Prop where
  inOrder : pieces.Pairwise fun p q => p.stop ≤ q.start
  mem_iff : ∀ p, p ∈ pieces ↔ p.IsOf text ∧ place ≤ p.start

end Piece

variable {p : Nat → Bool} {text : List Char} {i start stop stop' : Nat} {c : Char}

/-! ## Runs -/

theorem MaximalRun.stop_unique (h : MaximalRun p start stop) (h' : MaximalRun p start stop') :
    stop = stop' := by
  rcases Nat.lt_trichotomy stop stop' with hlt | heq | hlt
  · have htrue := h'.holds stop (Nat.le_of_lt h.lt) hlt
    rw [h.after] at htrue
    cases htrue
  · exact heq
  · have htrue := h.holds stop' (Nat.le_of_lt h'.lt) hlt
    rw [h'.after] at htrue
    cases htrue

/-- A run does not begin inside another one. -/
theorem MaximalRun.start_unique {start' : Nat} (h : MaximalRun p start stop)
    (h' : MaximalRun p start' stop') (hle : start ≤ start') (hlt : start' < stop) :
    start' = start := by
  rcases Nat.eq_or_lt_of_le hle with heq | hinside
  · exact heq.symm
  · obtain ⟨i, rfl⟩ := Nat.exists_eq_add_one_of_ne_zero (Nat.ne_zero_of_lt hinside)
    have htrue := h.holds i (by omega) (by omega)
    rw [h'.before i rfl] at htrue
    cases htrue

/-- No run is cut in two at a place. -/
def Uncut (p : Nat → Bool) (place : Nat) : Prop := ∀ i, i + 1 = place → p i = true → p place = false

theorem uncut_succ (h : p i = false) : Uncut p (i + 1) := by
  intro j hj htrue
  rw [Nat.succ.inj hj, h] at htrue
  cases htrue

theorem exists_maximalRun (hcut : Uncut p start) (hstart : p start = true)
    (hlt : ∀ i, p i = true → i < text.length) : ∃ stop, MaximalRun p start stop := by
  have hend : p text.length = false :=
    Bool.eq_false_iff.mpr fun h => Nat.lt_irrefl _ (hlt _ h)
  have hsome : ∃ stop, start ≤ stop ∧ p stop = false :=
    ⟨text.length, Nat.le_of_lt (hlt start hstart), hend⟩
  obtain ⟨hle, hfalse⟩ := Nat.find_spec hsome
  refine ⟨Nat.find hsome, ?_, ?_, ?_, hfalse⟩
  · rcases Nat.eq_or_lt_of_le hle with heq | hlt
    · rw [← heq, hstart] at hfalse
      cases hfalse
    · exact hlt
  · intro i hi hlt
    have hnot := Nat.find_min hsome hlt
    cases hp : p i with
    | true => rfl
    | false => exact absurd ⟨hi, hp⟩ hnot
  · intro i hi
    cases hp : p i with
    | true =>
      rw [hcut i hi hp] at hstart
      cases hstart
    | false => rfl

/-! ## Places -/

theorem drop_eq_cons (h : text[i]? = some c) : text.drop i = c :: text.drop (i + 1) := by
  obtain ⟨hlt, rfl⟩ := List.getElem?_eq_some_iff.mp h
  exact List.drop_eq_getElem_cons hlt

theorem reverse_take_succ (h : text[i]? = some c) :
    (text.take (i + 1)).reverse = c :: (text.take i).reverse := by
  rw [List.take_add_one, h, List.reverse_append]
  rfl

theorem numberAt_eq (h : text[i]? = some c) :
    numberAt text i = isOfNumber (text.take i).reverse c (text.drop (i + 1)) := by
  rw [numberAt, drop_eq_cons h]
  rfl

theorem lt_length_of_numberAt (h : numberAt text i = true) : i < text.length := by
  refine Nat.lt_of_not_le fun hle => ?_
  rw [numberAt, List.drop_of_length_le hle] at h
  cases h

theorem starAt_iff : starAt text i = true ↔ text[i]? = some '*' := beq_iff_eq

theorem lt_length_of_starAt (h : starAt text i = true) : i < text.length :=
  (List.getElem?_eq_some_iff.mp (starAt_iff.mp h)).1

theorem numberAt_of_starAt (h : starAt text i = true) : numberAt text i = false :=
  (numberAt_eq (starAt_iff.mp h)).trans (isOfNumber_symbol .star)

/-! ## Pieces do not overlap -/

/-- The character at a place, unless it belongs to a number token. -/
def aloneAt? (text : List Char) (place : Nat) : Option Char :=
  if numberAt text place then none else text[place]?

namespace Piece

variable {q r : Piece} {pieces others : List Piece}

/-- The symbol that a piece consists of; number tokens consist of none. -/
def symbol? : Piece → Option Char
  | number _ _ => none
  | stars _ _ => some '*'
  | symbol _ c => some c

theorem IsOf.start_lt_stop (h : q.IsOf text) : q.start < q.stop := by
  cases h with
  | number h => exact h.lt
  | stars h => exact h.lt
  | symbol _ _ _ _ => exact Nat.lt_succ_self _

theorem IsOf.aloneAt?_eq (h : q.IsOf text) (hle : q.start ≤ i) (hlt : i < q.stop) :
    aloneAt? text i = q.symbol? := by
  cases h with
  | number h => exact if_pos (h.holds i hle hlt)
  | stars h =>
      have hstar := h.holds i hle hlt
      rw [aloneAt?, numberAt_of_starAt hstar, starAt_iff.mp hstar]
      rfl
  | @symbol place c hchar _ _ hnot =>
      obtain rfl : i = place := Nat.le_antisymm (Nat.le_of_lt_succ hlt) hle
      rw [aloneAt?, hnot, hchar]
      rfl

/-- A piece that begins inside another one is that one. -/
theorem IsOf.eq_of_inside (h : q.IsOf text) (h' : r.IsOf text) (hle : q.start ≤ r.start)
    (hlt : r.start < q.stop) : r = q := by
  have hsymbol : r.symbol? = q.symbol? :=
    (h'.aloneAt?_eq (Nat.le_refl _) h'.start_lt_stop).symm.trans (h.aloneAt?_eq hle hlt)
  cases h with
  | number hrun =>
      cases h' with
      | number hrun' =>
          obtain rfl := hrun.start_unique hrun' hle hlt
          rw [hrun.stop_unique hrun']
      | stars _ => cases hsymbol
      | symbol _ _ _ _ => cases hsymbol
  | stars hrun =>
      cases h' with
      | number _ => cases hsymbol
      | stars hrun' =>
          obtain rfl := hrun.start_unique hrun' hle hlt
          rw [hrun.stop_unique hrun']
      | symbol _ _ hne _ => exact absurd (Option.some_inj.mp hsymbol) hne
  | symbol _ _ hne _ =>
      cases h' with
      | number _ => cases hsymbol
      | stars _ => exact absurd (Option.some_inj.mp hsymbol).symm hne
      | @symbol place' _ _ _ _ _ =>
          obtain rfl := Option.some_inj.mp hsymbol
          obtain rfl : place' = _ := Nat.le_antisymm (Nat.le_of_lt_succ hlt) hle
          rfl

/-! ## The list of the pieces -/

theorem Lists.nil (h : text.length ≤ i) : Lists text i [] := by
  refine ⟨.nil, fun q => iff_of_false List.not_mem_nil ?_⟩
  rintro ⟨hq, hle⟩
  have hlt : q.start < text.length := by
    cases hq with
    | number hrun => exact lt_length_of_numberAt (hrun.holds _ (Nat.le_refl _) hrun.lt)
    | stars hrun => exact lt_length_of_starAt (hrun.holds _ (Nat.le_refl _) hrun.lt)
    | symbol hchar _ _ _ => exact (List.getElem?_eq_some_iff.mp hchar).1
  omega

theorem Lists.cons (hq : q.IsOf text) (h : Lists text q.stop pieces) :
    Lists text q.start (q :: pieces) := by
  refine ⟨List.pairwise_cons.mpr ⟨fun r hr => ((h.mem_iff r).mp hr).2, h.inOrder⟩, fun r => ?_⟩
  rw [List.mem_cons, h.mem_iff]
  constructor
  · rintro (rfl | ⟨hr, hle⟩)
    · exact ⟨hq, Nat.le_refl _⟩
    · exact ⟨hr, Nat.le_trans (Nat.le_of_lt hq.start_lt_stop) hle⟩
  · rintro ⟨hr, hle⟩
    rcases Nat.lt_or_ge r.start q.stop with hlt | hge
    · exact .inl (hq.eq_of_inside hr hle hlt)
    · exact .inr ⟨hr, hge⟩

theorem Lists.of_succ (hnone : ∀ q : Piece, q.IsOf text → q.start ≠ i)
    (h : Lists text (i + 1) pieces) : Lists text i pieces := by
  refine ⟨h.inOrder, fun q => (h.mem_iff q).trans (and_congr_right fun hq => ?_)⟩
  have hne := hnone q hq
  omega

theorem Lists.nodup (h : Lists text i pieces) : pieces.Nodup := by
  refine h.inOrder.imp_of_mem ?_
  rintro q r hq _ hle rfl
  have hlt := ((h.mem_iff q).mp hq).1.start_lt_stop
  omega

theorem Lists.unique (h : Lists text i pieces) (h' : Lists text i others) : pieces = others := by
  have hperm : pieces.Perm others :=
    (List.perm_ext_iff_of_nodup h.nodup h'.nodup).mpr fun q =>
      (h.mem_iff q).trans (h'.mem_iff q).symm
  refine hperm.eq_of_pairwise ?_ h.inOrder h'.inOrder
  intro q r hq hr hle hle'
  have hlt := ((h.mem_iff q).mp hq).1.start_lt_stop
  have hlt' := ((h'.mem_iff r).mp hr).1.start_lt_stop
  omega

/-- No run is cut in two at the end of a piece. -/
theorem IsOf.uncut_stop (h : q.IsOf text) :
    Uncut (numberAt text) q.stop ∧ Uncut (starAt text) q.stop := by
  cases h with
  | @number start stop hrun =>
      obtain ⟨i, rfl⟩ := Nat.exists_eq_add_one_of_ne_zero (Nat.ne_zero_of_lt hrun.lt)
      have hnumber := hrun.holds i (Nat.le_of_lt_succ hrun.lt) (Nat.lt_succ_self i)
      have hstar : starAt text i = false := by
        refine Bool.eq_false_iff.mpr fun hstar => ?_
        rw [numberAt_of_starAt hstar] at hnumber
        cases hnumber
      exact ⟨fun _ _ _ => hrun.after, uncut_succ hstar⟩
  | @stars start stop hrun =>
      obtain ⟨i, rfl⟩ := Nat.exists_eq_add_one_of_ne_zero (Nat.ne_zero_of_lt hrun.lt)
      have hstar := hrun.holds i (Nat.le_of_lt_succ hrun.lt) (Nat.lt_succ_self i)
      exact ⟨uncut_succ (numberAt_of_starAt hstar), fun _ _ _ => hrun.after⟩
  | @symbol place c hchar _ hne hnot =>
      have hstar : starAt text place = false := by
        refine Bool.eq_false_iff.mpr fun hstar => hne ?_
        exact Option.some_inj.mp (hchar.symm.trans (starAt_iff.mp hstar))
      exact ⟨uncut_succ hnot, uncut_succ hstar⟩

theorem exists_isOf (hnumber : Uncut (numberAt text) i) (hstar : Uncut (starAt text) i)
    (h : text[i]? = some c) (hc : c ∉ blanks) : ∃ q : Piece, q.IsOf text ∧ q.start = i := by
  cases hi : numberAt text i with
  | true =>
      obtain ⟨stop, hrun⟩ := exists_maximalRun hnumber hi fun _ => lt_length_of_numberAt
      exact ⟨.number i stop, .number hrun, rfl⟩
  | false =>
      have hsymbol : c ∈ symbols := by
        by_contra htext
        rw [numberAt_eq h, isOfNumber_text ⟨htext, hc⟩] at hi
        cases hi
      by_cases hs : c = '*'
      · subst hs
        have hi' : starAt text i = true := starAt_iff.mpr h
        obtain ⟨stop, hrun⟩ := exists_maximalRun hstar hi' fun _ => lt_length_of_starAt
        exact ⟨.stars i stop, .stars hrun, rfl⟩
      · exact ⟨.symbol i c, .symbol h hsymbol hs hi, rfl⟩

end Piece

/-! ## The tokens of pieces -/

namespace Token

variable {q : Piece}

/-- The tokens of the text from a place on, where no number token is in progress. -/
def ofPlace (text : List Char) (place : Nat) : List Token :=
  ofChars .empty (.behind (text.take place).reverse) [] (text.drop place)

theorem ofPlace_of_numberAt (hle : start ≤ stop)
    (h : ∀ i, start ≤ i → i < stop → numberAt text i = true) :
    ofPlace text start = ofChars .empty (.behind (text.take stop).reverse)
      ((text.drop start).take (stop - start)) (text.drop stop) := by
  induction stop, hle using Nat.le_induction with
  | base => rw [Nat.sub_self, List.take_zero, ofPlace]
  | succ stop hle ih =>
      have hnumber := h stop hle (Nat.lt_succ_self stop)
      obtain ⟨c, hc⟩ : ∃ c, text[stop]? = some c :=
        ⟨_, List.getElem?_eq_getElem (lt_length_of_numberAt hnumber)⟩
      have hslice : (text.drop start).take (stop + 1 - start) =
          (text.drop start).take (stop - start) ++ [c] := by
        rw [Nat.succ_sub hle, List.take_add_one, List.getElem?_drop, Nat.add_sub_cancel' hle, hc]
        rfl
      rw [numberAt_eq hc] at hnumber
      rw [ih fun i hi hlt => h i hi (Nat.lt_succ_of_lt hlt), drop_eq_cons hc,
        ofChars_ofNumber hnumber, reverse_take_succ hc, hslice]

/-- Of the `*` that touch, two and two are read, and one that is left over. -/
theorem ofPlace_of_starAt (count : Nat) {start : Nat}
    (h : ∀ i, start ≤ i → i < start + count → starAt text i = true)
    (hafter : starAt text (start + count) = false) :
    ofPlace text start = List.replicate (count / 2) (operator .power) ++
      List.replicate (count % 2) (operator .multiply) ++ ofPlace text (start + count) := by
  match count with
  | 0 => rfl
  | 1 =>
      have hchar := starAt_iff.mp (h start (Nat.le_refl _) (Nat.lt_succ_self _))
      have hnext : ∀ rest, text.drop (start + 1) ≠ '*' :: rest := by
        intro rest hrest
        have hstar : text[start + 1]? = some '*' := by
          rw [← List.head?_drop, hrest]
          rfl
        rw [starAt_iff.mpr hstar] at hafter
        cases hafter
      have hread := @ofChars_symbol .empty (.behind (text.take start).reverse) []
        (text.drop (start + 1)) .star nofun fun _ => hnext
      rw [ofPlace, ofPlace, drop_eq_cons hchar, reverse_take_succ hchar]
      exact hread
  | count + 2 =>
      have hchar := starAt_iff.mp (h start (Nat.le_refl _) (by omega))
      have hchar' := starAt_iff.mp (h (start + 1) (by omega) (by omega))
      have hbehind : Context.behind (text.take (start + 2)).reverse = .operator := by
        rw [reverse_take_succ hchar']
        exact Context.behind_symbol .star
      have hplace : start + 2 + count = start + (count + 2) := by omega
      have ih := @ofPlace_of_starAt count (start + 2) (fun i hi hlt => h i (by omega) (by omega))
        (hplace ▸ hafter)
      rw [hplace, ofPlace, hbehind] at ih
      rw [ofPlace, drop_eq_cons hchar, drop_eq_cons hchar', ofChars_power, ih, ofRun_nil,
        Nat.add_div_right _ Nat.two_pos, Nat.add_mod_right]
      rfl

theorem ofPlace_of_blank (h : text[i]? = some c) (hc : c ∈ blanks) :
    ofPlace text i = ofPlace text (i + 1) := by
  rw [ofPlace, ofPlace, drop_eq_cons h, ofChars_blank hc, ofRun_nil, List.nil_append,
    reverse_take_succ h, Context.behind_blank hc]

theorem tokens_symbol (s : Symbol) : (Piece.symbol i s.char).tokens text = [ofSymbol s] := by
  cases s <;> rfl

theorem ofPlace_of_symbol (h : text[i]? = some c) (hc : c ∈ symbols) (hne : c ≠ '*')
    (hnot : numberAt text i = false) :
    ofPlace text i = (Piece.symbol i c).tokens text ++ ofPlace text (i + 1) := by
  obtain ⟨s, rfl⟩ := mem_symbols_iff.mp hc
  have hstar : s ≠ .star := by
    rintro rfl
    exact hne rfl
  rw [numberAt_eq h] at hnot
  rw [ofPlace, ofPlace, drop_eq_cons h, ofChars_symbol_behind s hnot fun hs => absurd hs hstar,
    reverse_take_succ h, tokens_symbol]
  rfl

theorem ofPlace_of_isOf (h : q.IsOf text) :
    ofPlace text q.start = q.tokens text ++ ofPlace text q.stop := by
  cases h with
  | @number start stop hrun =>
      have hslice : (text.drop start).take (stop - start) ≠ [] := by
        have hlt := hrun.lt
        have hlength := lt_length_of_numberAt (hrun.holds start (Nat.le_refl _) hlt)
        rw [← List.length_pos_iff, List.length_take, List.length_drop]
        omega
      show ofPlace text start = _
      rw [ofPlace_of_numberAt (Nat.le_of_lt hrun.lt) hrun.holds,
        ofChars_of_numberAfter_eq_false hrun.after, ofRun_empty hslice]
      rfl
  | @stars start stop hrun =>
      have hplace : start + (stop - start) = stop := Nat.add_sub_cancel' (Nat.le_of_lt hrun.lt)
      have hread := @ofPlace_of_starAt text (stop - start) start
        (fun i hi hlt => hrun.holds i hi (hplace ▸ hlt)) (hplace.symm ▸ hrun.after)
      rwa [hplace] at hread
  | symbol hchar hsymbol hne hnot => exact ofPlace_of_symbol hchar hsymbol hne hnot

/-! ## The tokens of a text -/

open Piece (Lists exists_isOf)

/-- Where no run is cut in two, the tokens from there on are those of the pieces from
there on. -/
theorem exists_lists (text : List Char) (place : Nat) (hnumber : Uncut (numberAt text) place)
    (hstar : Uncut (starAt text) place) :
    ∃ pieces, Lists text place pieces ∧
      ofPlace text place = pieces.flatMap (Piece.tokens text) := by
  rcases Nat.lt_or_ge place text.length with hlt | hge
  · by_cases hpiece : ∃ q : Piece, q.IsOf text ∧ q.start = place
    · obtain ⟨q, hq, rfl⟩ := hpiece
      have hless := hq.start_lt_stop
      obtain ⟨pieces, hlists, htokens⟩ := exists_lists text q.stop hq.uncut_stop.1 hq.uncut_stop.2
      exact ⟨q :: pieces, hlists.cons hq, by rw [ofPlace_of_isOf hq, htokens, List.flatMap_cons]⟩
    · have hchar := List.getElem?_eq_getElem hlt
      have hblank : text[place] ∈ blanks := by
        by_contra hblank
        exact hpiece (exists_isOf hnumber hstar hchar hblank)
      have hnumber' : numberAt text place = false := by
        rw [numberAt_eq hchar, isOfNumber_blank hblank]
      have hstar' : starAt text place = false := by
        refine Bool.eq_false_iff.mpr fun hstar' => hpiece ?_
        obtain ⟨stop, hrun⟩ := exists_maximalRun hstar hstar' fun _ => lt_length_of_starAt
        exact ⟨_, .stars hrun, rfl⟩
      obtain ⟨pieces, hlists, htokens⟩ :=
        exists_lists text (place + 1) (uncut_succ hnumber') (uncut_succ hstar')
      refine ⟨pieces, hlists.of_succ fun q hq hstart => hpiece ⟨q, hq, hstart⟩, ?_⟩
      rw [ofPlace_of_blank hchar hblank, htokens]
  · refine ⟨[], .nil hge, ?_⟩
    rw [ofPlace, List.drop_of_length_le hge, ofChars_nil]
    rfl
termination_by text.length - place

/-- The tokens of a text, when no letter is bound, are those of its pieces in their
order. -/
theorem ofText_eq_iff_pieces (text : String) (tokens : List Token) :
    ofText .empty text = tokens ↔
      ∃ pieces, Lists text.toList 0 pieces ∧
        tokens = pieces.flatMap (Piece.tokens text.toList) := by
  obtain ⟨pieces, hlists, htokens⟩ := exists_lists text.toList 0 nofun nofun
  have htext : ofText .empty text = pieces.flatMap (Piece.tokens text.toList) := htokens
  rw [htext]
  constructor
  · rintro rfl
    exact ⟨pieces, hlists, rfl⟩
  · rintro ⟨others, hothers, rfl⟩
    rw [hlists.unique hothers]

/-- All symbols and both kinds of `-`: only one that opens a text is a sign when a blank
follows it. -/
theorem ofText_pieces_signs :
    let text := " - -2 -5**\t***(- 3)/-4%x+"
    let tokens : List Token :=
      [⟨.number, "-"⟩, ⟨.number, "-2"⟩, ⟨.operator, "-"⟩, ⟨.number, "5"⟩, ⟨.operator, "**"⟩,
        ⟨.operator, "**"⟩, ⟨.operator, "*"⟩, ⟨.parenthesis, "("⟩, ⟨.operator, "-"⟩,
        ⟨.number, "3"⟩, ⟨.parenthesis, ")"⟩, ⟨.operator, "/"⟩, ⟨.number, "-4"⟩,
        ⟨.operator, "%"⟩, ⟨.number, "x"⟩, ⟨.operator, "+"⟩]
    ofText .empty text = tokens ∧
      ∃ pieces, Lists text.toList 0 pieces ∧
        tokens = pieces.flatMap (Piece.tokens text.toList) := by
  intro text tokens
  have htokens : ofText .empty text = tokens := by decide
  exact ⟨htokens, (ofText_eq_iff_pieces text tokens).mp htokens⟩

end Token
end Stepwise
