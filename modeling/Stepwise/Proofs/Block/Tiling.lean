import Stepwise.Block
import Stepwise.Proofs.Structure.Grammar

/-!
# The blocks of a sequence lie side by side

Cutting covers no token twice: each block begins where the one before it ends
(`Tiles`), and only a `(` at the very end is in none.  Written out token by token,
the depths of the blocks are the nesting depths of the tokens
(`spread_cutFrom_isPrefix`), so that what is said of blocks can be said of tokens.
How many blocks there are is told by the parentheses alone, and they are numbered in
their order.

Nothing is asked of the tokens, which may be those of a text that is refused.  For the
depths no group may be closed that was not opened (`NeverBelow`), since a `)` too many
leaves the depth of the blocks at 0; groups that stay open do no harm.

The induction is along the cutting, with a block in progress that began at `start`:
its tokens from there to `index` are at the present depth.
-/

namespace Stepwise

open Structure (isBalanced)

/-! ## The depth of a token -/

/-- The nesting depth of the token at an index: the groups opened up to and with
it, less those closed before it.  So both parentheses of a group are as deep as
what stands between them. -/
def depthAt (tokens : List Token) (index : Nat) : Nat :=
  (tokens.take (index + 1)).countP Token.isOpening - (tokens.take index).countP Token.isClosing

/-- The nesting depths of all tokens, when `depth` groups are open before them.  A
`)` too many stays at depth 0. -/
def depths (depth : Nat) : List Token → List Nat
  | [] => []
  | t :: rest =>
      if t.isOpening then (depth + 1) :: depths (depth + 1) rest
      else if t.isClosing then depth :: depths (depth - 1) rest
      else depth :: depths depth rest

/-- No group is closed that was not opened, when `depth` groups are open before the
tokens. -/
def NeverBelow (depth : Nat) (tokens : List Token) : Prop :=
  ∀ count, (tokens.take count).countP Token.isClosing ≤
    depth + (tokens.take count).countP Token.isOpening

section Depths

variable {depth index : Nat} {t : Token} {tokens rest : List Token}

theorem neverBelow_iff : NeverBelow depth tokens ↔ ∀ count < tokens.length + 1,
    (tokens.take count).countP Token.isClosing ≤
      depth + (tokens.take count).countP Token.isOpening := by
  refine ⟨fun h count _ => h count, fun h count => ?_⟩
  rcases Nat.lt_or_ge count (tokens.length + 1) with hlt | hge
  · exact h count hlt
  · have hall := h tokens.length (Nat.lt_succ_self _)
    rw [List.take_length] at hall
    rwa [List.take_of_length_le (by omega)]

instance : Decidable (NeverBelow depth tokens) := decidable_of_iff _ neverBelow_iff.symm

theorem Token.isClosing_eq_false_of_isOpening (h : t.isOpening = true) : t.isClosing = false := by
  rw [Token.eq_opening_of_isOpening h]
  rfl

theorem NeverBelow.tail (h : NeverBelow depth (t :: rest)) :
    NeverBelow (if t.isOpening then depth + 1 else if t.isClosing then depth - 1 else depth)
      rest := by
  intro count
  have hcount := h (count + 1)
  simp only [List.take_succ_cons, List.countP_cons] at hcount
  split
  · next hopening =>
    simp only [hopening, Token.isClosing_eq_false_of_isOpening hopening, Bool.false_eq_true,
      if_true, if_false] at hcount
    omega
  · next hopening =>
    simp only [hopening, Bool.false_eq_true, if_false] at hcount
    split
    · next hclosing =>
      simp only [hclosing, if_true] at hcount
      omega
    · next hclosing =>
      simp only [hclosing, Bool.false_eq_true, if_false] at hcount
      omega

/-- A `)` at the front closes a group that is open. -/
theorem NeverBelow.pos (h : NeverBelow depth (t :: rest)) (hclosing : t.isClosing = true) :
    0 < depth := by
  rw [Token.eq_closing_of_isClosing hclosing] at h
  have hone := h 1
  simp only [List.take_succ_cons, List.take_zero, List.countP_cons, List.countP_nil,
    Token.isClosing_closing, Token.isOpening_closing, Bool.false_eq_true, if_true, if_false] at hone
  omega

theorem neverBelow_of_isBalanced (h : isBalanced depth tokens = true) :
    NeverBelow depth tokens := by
  fun_induction isBalanced depth tokens with
  | case1 depth => exact fun count => by simp
  | case2 depth t rest hopening ih =>
      rintro (_ | count)
      · exact Nat.zero_le _
      · have := ih h count
        simp only [List.take_succ_cons, List.countP_cons, hopening,
          Token.isClosing_eq_false_of_isOpening hopening, Bool.false_eq_true, if_true, if_false]
        omega
  | case3 depth t rest hopening hclosing ih =>
      obtain ⟨hdepth, hrest⟩ := Bool.and_eq_true_iff.mp h
      have hdepth := bne_iff_ne.mp hdepth
      rintro (_ | count)
      · exact Nat.zero_le _
      · have := ih hrest count
        simp only [List.take_succ_cons, List.countP_cons, hopening, hclosing,
          Bool.false_eq_true, if_true, if_false]
        omega
  | case4 depth t rest hopening hclosing ih =>
      rintro (_ | count)
      · exact Nat.zero_le _
      · have := ih h count
        simp only [List.take_succ_cons, List.countP_cons, hopening, hclosing,
          Bool.false_eq_true, if_false]
        omega

/-- Where no group is closed that was not opened, the depth of a token is what the
parentheses before it amount to. -/
theorem getElem?_depths (h : NeverBelow depth tokens) (hindex : index < tokens.length) :
    (depths depth tokens)[index]? = some
      (depth + (tokens.take (index + 1)).countP Token.isOpening -
        (tokens.take index).countP Token.isClosing) := by
  induction tokens generalizing depth index with
  | nil => exact absurd hindex (Nat.not_lt_zero _)
  | cons t rest ih =>
      have htail := h.tail
      have hpos := h.pos
      cases index with
      | zero =>
          simp only [depths, List.take_succ_cons, List.take_zero, List.countP_cons, List.countP_nil]
          split
          · rfl
          · split <;> rfl
      | succ index =>
          have hindex := Nat.lt_of_succ_lt_succ hindex
          simp only [depths, List.take_succ_cons, List.countP_cons]
          split
          · next hopening =>
            rw [if_pos hopening] at htail
            rw [List.getElem?_cons_succ, ih htail hindex,
              Token.isClosing_eq_false_of_isOpening hopening]
            simp only [Bool.false_eq_true, if_false, Option.some_inj]
            omega
          · next hopening =>
            rw [if_neg hopening] at htail
            split
            · next hclosing =>
              rw [if_pos hclosing] at htail
              have hpos := hpos hclosing
              rw [List.getElem?_cons_succ, ih htail hindex]
              simp only [Option.some_inj]
              omega
            · next hclosing =>
              rw [if_neg hclosing] at htail
              rw [List.getElem?_cons_succ, ih htail hindex]
              rfl

end Depths

/-! ## Blocks side by side -/

namespace Block

variable {id depth start stop index : Nat} {tokens rest : List Token} {b : Block}
  {blocks front back : List Block}

/-- The blocks cover the indices from `start` up to `stop`, each beginning where the
one before it ends. -/
inductive Tiles : (start stop : Nat) → List Block → Prop
  | done {stop : Nat} : Tiles stop stop []
  | block {start stop : Nat} {b : Block} {rest : List Block} : b.start = start →
      start ≤ b.stop → Tiles b.stop stop rest → Tiles start stop (b :: rest)

/-- The number of tokens that are in blocks: all but a `(` at the end. -/
def covered (tokens : List Token) : Nat :=
  if tokens.getLast?.any Token.isOpening then tokens.length - 1 else tokens.length

theorem covered_cons (t : Token) (h : rest ≠ []) : covered (t :: rest) = covered rest + 1 := by
  obtain ⟨u, more, rfl⟩ := List.exists_cons_of_ne_nil h
  simp only [covered, List.getLast?_cons_cons, List.length_cons]
  split <;> omega

/-- Cutting tiles the tokens, and those of the block in progress. -/
theorem tiles_cutFrom (hle : start ≤ index) (hne : tokens ≠ []) :
    Tiles start (index + covered tokens) (cutFrom id depth start index tokens) := by
  fun_induction cutFrom id depth start index tokens with
  | case1 => exact absurd rfl hne
  | case2 id depth start index t rest hopening ih =>
      refine .block rfl hle ?_
      by_cases hrest : rest = []
      · subst hrest
        have hcovered : covered [t] = 0 := by simp [covered, hopening]
        rw [hcovered]
        exact .done
      · rw [covered_cons t hrest, Nat.add_comm (covered rest), ← Nat.add_assoc]
        exact ih (Nat.le_succ index) hrest
  | case3 id depth start index t rest hopening hclosing ih =>
      refine .block rfl (Nat.le_succ_of_le hle) ?_
      by_cases hrest : rest = []
      · subst hrest
        have hcovered : covered [t] = 1 := by simp [covered, hopening]
        rw [hcovered]
        exact .done
      · rw [covered_cons t hrest, Nat.add_comm (covered rest), ← Nat.add_assoc]
        exact ih (Nat.le_refl _) hrest
  | case4 id depth start index t rest hopening hclosing hrest =>
      obtain rfl : rest = [] := List.isEmpty_iff.mp hrest
      have hcovered : covered [t] = 1 := by simp [covered, hopening]
      rw [hcovered]
      exact .block rfl (Nat.le_succ_of_le hle) .done
  | case5 id depth start index t rest hopening hclosing hrest ih =>
      have hrest : rest ≠ [] := fun h => hrest (List.isEmpty_iff.mpr h)
      rw [covered_cons t hrest, Nat.add_comm (covered rest), ← Nat.add_assoc]
      exact ih (Nat.le_succ_of_le hle) hrest

theorem tiles_cut (tokens : List Token) : Tiles 0 (covered tokens) (cut tokens) := by
  by_cases hne : tokens = []
  · subst hne
    exact .done
  · rw [← Nat.zero_add (covered tokens)]
    exact tiles_cutFrom (Nat.le_refl 0) hne

theorem Tiles.le (h : Tiles start stop blocks) : start ≤ stop := by
  induction h with
  | done => exact Nat.le_refl _
  | block hstart hle _ ih => exact Nat.le_trans hle ih

theorem Tiles.split (h : Tiles start stop (front ++ b :: back)) :
    Tiles start b.start front ∧ b.start ≤ b.stop ∧ Tiles b.stop stop back := by
  induction front generalizing start with
  | nil =>
      cases h with
      | block hstart hle hback =>
          subst hstart
          exact ⟨.done, hle, hback⟩
  | cons c front ih =>
      cases h with
      | block hstart hle hrest =>
          obtain ⟨hfront, hb, hback⟩ := ih hrest
          exact ⟨.block hstart hle hfront, hb, hback⟩

theorem Tiles.exists_mem (h : Tiles start stop blocks) (hstart : start ≤ index)
    (hstop : index < stop) : ∃ b ∈ blocks, b.start ≤ index ∧ index < b.stop := by
  induction h with
  | done => omega
  | @block start stop b rest hb _ _ ih =>
      by_cases hindex : index < b.stop
      · exact ⟨b, List.mem_cons_self, by omega, hindex⟩
      · obtain ⟨c, hc, hcindex⟩ := ih (Nat.not_lt.mp hindex) hstop
        exact ⟨c, List.mem_cons_of_mem _ hc, hcindex⟩

theorem Tiles.stop_le_of_mem (h : Tiles start stop blocks) (hb : b ∈ blocks) : b.stop ≤ stop := by
  obtain ⟨front, back, rfl⟩ := List.append_of_mem hb
  exact h.split.2.2.le

/-! ## The depths of the blocks, token by token -/

/-- The depth of its block, for every token that is in one. -/
def spread (blocks : List Block) : List Nat :=
  blocks.flatMap fun b => List.replicate (b.stop - b.start) b.priority

theorem spread_cons (b : Block) (blocks : List Block) :
    spread (b :: blocks) = List.replicate (b.stop - b.start) b.priority ++ spread blocks := rfl

theorem Tiles.length_spread (h : Tiles start stop blocks) :
    (spread blocks).length = stop - start := by
  induction h with
  | done => simp [spread]
  | @block start stop b rest hstart hle hrest ih =>
      have hle' := hrest.le
      rw [spread_cons, List.length_append, List.length_replicate, ih]
      omega

theorem Tiles.getElem?_spread (h : Tiles 0 stop blocks) (hb : b ∈ blocks)
    (hstart : b.start ≤ index) (hstop : index < b.stop) :
    (spread blocks)[index]? = some b.priority := by
  obtain ⟨front, back, rfl⟩ := List.append_of_mem hb
  obtain ⟨hfront, _, _⟩ := h.split
  have hspread : spread (front ++ b :: back) =
      spread front ++ (List.replicate (b.stop - b.start) b.priority ++ spread back) := by
    simp [spread]
  have hlength := hfront.length_spread
  rw [Nat.sub_zero] at hlength
  rw [hspread, List.getElem?_append_right (by omega), hlength,
    List.getElem?_append_left (by rw [List.length_replicate]; omega), List.getElem?_replicate,
    if_pos (by omega)]

theorem replicate_succ_sub_append (hle : start ≤ index) (depth : Nat) (more : List Nat) :
    List.replicate (index + 1 - start) depth ++ more =
      List.replicate (index - start) depth ++ depth :: more := by
  rw [Nat.succ_sub hle, List.replicate_succ', List.append_assoc, List.singleton_append]

/-- The depths of the blocks are those of the tokens that are in blocks. -/
theorem spread_cutFrom_isPrefix (hle : start ≤ index) :
    spread (cutFrom id depth start index tokens) <+:
      List.replicate (index - start) depth ++ depths depth tokens := by
  fun_induction cutFrom id depth start index tokens with
  | case1 => exact List.nil_prefix
  | case2 id depth start index t rest hopening ih =>
      have ih := ih (Nat.le_succ index)
      rw [replicate_succ_sub_append (Nat.le_refl index), Nat.sub_self, List.replicate_zero,
        List.nil_append] at ih
      rw [spread_cons, depths, if_pos hopening]
      exact (List.prefix_append_right_inj _).mpr ih
  | case3 id depth start index t rest hopening hclosing ih =>
      have ih := ih (Nat.le_refl (index + 1))
      rw [Nat.sub_self, List.replicate_zero, List.nil_append] at ih
      rw [spread_cons, depths, if_neg hopening, if_pos hclosing, replicate_succ_sub_append hle,
        List.prefix_append_right_inj]
      exact List.cons_prefix_cons.mpr ⟨rfl, ih⟩
  | case4 id depth start index t rest hopening hclosing hrest =>
      obtain rfl : rest = [] := List.isEmpty_iff.mp hrest
      rw [spread_cons, depths, if_neg hopening, if_neg hclosing, replicate_succ_sub_append hle]
      exact List.prefix_rfl
  | case5 id depth start index t rest hopening hclosing hrest ih =>
      have ih := ih (Nat.le_succ_of_le hle)
      rw [replicate_succ_sub_append hle] at ih
      rwa [depths, if_neg hopening, if_neg hclosing]

theorem depthAt_of_mem_cut (h : NeverBelow 0 tokens) (hb : b ∈ cut tokens)
    (hstart : b.start ≤ index) (hstop : index < b.stop) : depthAt tokens index = b.priority := by
  have htiles := tiles_cut tokens
  have hindex : index < tokens.length := by
    have hcovered : covered tokens ≤ tokens.length := by
      rw [covered]
      split <;> omega
    have := htiles.stop_le_of_mem hb
    omega
  obtain ⟨more, hmore⟩ : spread (cut tokens) <+: depths 0 tokens :=
    spread_cutFrom_isPrefix (Nat.le_refl 0)
  have hspread := htiles.getElem?_spread hb hstart hstop
  have hlt := (List.getElem?_eq_some_iff.mp hspread).1
  have hdepth := getElem?_depths h hindex
  rw [← hmore, List.getElem?_append_left hlt, hspread, Nat.zero_add] at hdepth
  exact (Option.some_inj.mp hdepth).symm

/-! ## How many blocks there are -/

/-- The tokens that end a block wherever they stand. -/
def endsBlock (t : Token) : Bool := t.isOpening || t.isClosing

/-- The last block is ended by the end of the tokens, and not by a parenthesis. -/
def endsInProgress (tokens : List Token) : Bool := tokens.getLast?.any (!endsBlock ·)

theorem endsInProgress_cons (t : Token) (h : rest ≠ []) :
    endsInProgress (t :: rest) = endsInProgress rest := by
  obtain ⟨u, more, rfl⟩ := List.exists_cons_of_ne_nil h
  rw [endsInProgress, endsInProgress, List.getLast?_cons_cons]

theorem endsInProgress_cons_of_endsBlock {t : Token} (ht : endsBlock t = true) (rest : List Token) :
    endsInProgress (t :: rest) = endsInProgress rest := by
  by_cases hrest : rest = []
  · subst hrest
    simp [endsInProgress, ht]
  · exact endsInProgress_cons t hrest

theorem length_cutFrom : (cutFrom id depth start index tokens).length =
    tokens.countP endsBlock + (endsInProgress tokens).toNat := by
  fun_induction cutFrom id depth start index tokens with
  | case1 => rfl
  | case2 id depth start index t rest hopening ih =>
      have ht : endsBlock t = true := by rw [endsBlock, hopening, Bool.true_or]
      rw [List.length_cons, ih, List.countP_cons_of_pos ht, endsInProgress_cons_of_endsBlock ht]
      omega
  | case3 id depth start index t rest _ hclosing ih =>
      have ht : endsBlock t = true := by rw [endsBlock, hclosing, Bool.or_true]
      rw [List.length_cons, ih, List.countP_cons_of_pos ht, endsInProgress_cons_of_endsBlock ht]
      omega
  | case4 id depth start index t rest hopening hclosing hrest =>
      obtain rfl : rest = [] := List.isEmpty_iff.mp hrest
      simp [endsInProgress, endsBlock, hopening, hclosing]
  | case5 id depth start index t rest hopening hclosing hrest ih =>
      have ht : ¬endsBlock t = true := by simp [endsBlock, hopening, hclosing]
      have hrest : rest ≠ [] := fun h => hrest (List.isEmpty_iff.mpr h)
      rw [ih, List.countP_cons_of_neg ht, endsInProgress_cons t hrest]

theorem map_id_cutFrom : (cutFrom id depth start index tokens).map Block.id =
    List.range' id (cutFrom id depth start index tokens).length := by
  fun_induction cutFrom id depth start index tokens with
  | case1 => rfl
  | case2 _ _ _ _ _ _ _ ih => rw [List.map_cons, ih, List.length_cons, List.range'_succ]
  | case3 _ _ _ _ _ _ _ _ ih => rw [List.map_cons, ih, List.length_cons, List.range'_succ]
  | case4 => rfl
  | case5 _ _ _ _ _ _ _ _ _ ih => exact ih

/-! ## All that is known of the blocks -/

/-- The blocks are numbered from 1 and tile the tokens up to a `(` at the end, their
number is told by the parentheses, and each is as deep as its tokens where no group is
closed that was not opened. -/
theorem tiles_numbered_cut (tokens : List Token) :
    (cut tokens).map Block.id = List.range' 1 (cut tokens).length ∧
      Tiles 0 (covered tokens) (cut tokens) ∧
      (cut tokens).length = tokens.countP endsBlock + (endsInProgress tokens).toNat ∧
      (NeverBelow 0 tokens → ∀ b ∈ cut tokens, ∀ index, b.start ≤ index → index < b.stop →
        depthAt tokens index = b.priority) := by
  refine ⟨map_id_cutFrom, tiles_cut tokens, length_cutFrom, ?_⟩
  intro hnever b hb index hstart hstop
  exact depthAt_of_mem_cut hnever hb hstart hstop

/-- Two groups that are not closed, the last of them opened at the very end. -/
theorem tiles_numbered_cut_unclosed :
    let tokens : List Token := [.opening, .number "2", .closing, .operator .add, .opening, .opening]
    NeverBelow 0 tokens ∧
      cut tokens = [⟨1, 0, 0, 0⟩, ⟨2, 1, 0, 3⟩, ⟨3, 0, 3, 4⟩, ⟨4, 1, 4, 5⟩] ∧
      Tiles 0 5 (cut tokens) ∧ depthAt tokens 2 = 1 := by
  intro tokens
  have hnever : NeverBelow 0 tokens := by decide
  obtain ⟨_, htiles, _, hdepth⟩ := tiles_numbered_cut tokens
  have hblock : (⟨2, 1, 0, 3⟩ : Block) ∈ cut tokens := List.mem_cons_of_mem _ List.mem_cons_self
  exact ⟨hnever, rfl, htiles, hdepth hnever _ hblock 2 (Nat.zero_le 2) (Nat.lt_succ_self 2)⟩

end Block
end Stepwise
