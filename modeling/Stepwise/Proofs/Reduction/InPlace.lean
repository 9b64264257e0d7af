import Stepwise.Proofs.Reduction.Confined
import Stepwise.Proofs.Reduction.Leftmost

/-!
# Reduction in place

A block can be reduced by overwriting and removing tokens of the sequence it stands in,
by index, one operator at a time, with a counter that says how many operators there can
still be.  Here every access is checked: an index beyond the sequence is a violation, and
so is a sum beyond the greatest index or a difference below 0.

Neither ever happens, whatever the tokens are and wherever the block lies, and the loop
ends with the answer and the sequence that `reduceBlock` gives.  All that is asked is that
the indices of the sequence are within the limit, and that so is the start of the block
with 2 more.
-/

namespace Stepwise

namespace Reduction

/-! ## Checked access -/

/-- What an access by index can do wrong. -/
inductive Violation where
  /-- An index beyond the sequence. -/
  | outOfRange
  /-- An index beyond the greatest there is, or below 0. -/
  | overflow
deriving DecidableEq, Repr

abbrev Checked := Except Violation

/-- The sum, if it is at most the greatest index. -/
def plus (limit i j : Nat) : Checked Nat :=
  if i + j ≤ limit then .ok (i + j) else .error .overflow

def minus (i j : Nat) : Checked Nat :=
  if j ≤ i then .ok (i - j) else .error .overflow

def read (tokens : List Token) (i : Nat) : Checked Token :=
  match tokens[i]? with
  | some t => .ok t
  | none => .error .outOfRange

/-- The tokens from index `i` up to, not including, index `j`. -/
def slice (tokens : List Token) (i j : Nat) : Checked (List Token) :=
  if i ≤ j ∧ j ≤ tokens.length then .ok ((tokens.take j).drop i) else .error .outOfRange

/-- The tokens with another one at index `i`. -/
def write (tokens : List Token) (i : Nat) (t : Token) : Checked (List Token) :=
  if i < tokens.length then .ok (tokens.set i t) else .error .outOfRange

/-- The tokens without those from index `i` up to, not including, index `j`. -/
def drain (tokens : List Token) (i j : Nat) : Checked (List Token) :=
  if i ≤ j ∧ j ≤ tokens.length then .ok (tokens.take i ++ tokens.drop j) else .error .outOfRange

/-- The tokens without the one at index `i`. -/
def remove (tokens : List Token) (i : Nat) : Checked (List Token) :=
  if i < tokens.length then .ok (tokens.eraseIdx i) else .error .outOfRange

/-! ## The loop -/

/-- The sequence, where the region of the block ends in it, and how many operators there
can still be. -/
structure State where
  tokens : List Token
  stop : Nat
  pending : Nat

/-- What a turn of the loop comes to. -/
inductive Turn where
  | again (s : State)
  | ended (answer : Except ReductionError String) (left : List Token)

variable (limit : Nat) (b : Block)

/-- The leftmost operator of the tightest tier in the region, which is looked for only
while the counter says that there can be one. -/
def next? (s : State) : Checked (Option (Nat × Operator)) := do
  if s.pending = 0 then return none
  return leftmostOf? Tier.all (← slice s.tokens b.start s.stop)

/-- Reduces the operator at `offset` from the start of the block, if tokens of the region
stand on both sides of it. -/
def reduceAt (s : State) (offset : Nat) (op : Operator) : Checked Turn := do
  let failed := Turn.ended (.error (.malformedBlock b.start b.stop)) s.tokens
  let index ← plus limit b.start offset
  if index = b.start then return failed
  let next ← plus limit index 1
  if s.stop ≤ next then return failed
  let previous ← minus index 1
  let left ← read s.tokens previous
  let right ← read s.tokens next
  let tokens ← write s.tokens previous (resultToken op left right)
  let tokens ← drain tokens index (← plus limit next 1)
  return .again ⟨tokens, ← minus s.stop 2, ← minus s.pending 1⟩

/-- A turn of the loop reduces an operator, or ends the loop if there is none. -/
def turn (s : State) : Checked Turn := do
  match ← next? b s with
  | some (offset, op) => reduceAt limit b s offset op
  | none => return .ended (.ok (← read s.tokens b.start).text) s.tokens

/-- Whether the first and the last token before `stop` are parentheses. -/
def wrapped (tokens : List Token) (stop : Nat) : Checked Bool := do
  if (← plus limit b.start 2) ≤ stop then
    let first ← read tokens b.start
    if first.isParenthesis then return (← read tokens (← minus stop 1)).isParenthesis
    else return false
  else return false

/-- The first turn of the loop, if the block covers tokens up to `stop`; the counter starts
at the number of tokens of the kind of operators. -/
def begin (tokens : List Token) (stop : Nat) : Checked Turn := do
  if stop ≤ b.start then return .ended (.error (.malformedBlock b.start b.stop)) tokens
  let region ← slice tokens b.start stop
  return .again ⟨tokens, stop, region.countP Token.isOperator⟩

/-- What is done before the loop: the end of the block is taken back to that of the
sequence, and parentheses at both ends are removed. -/
def enter (tokens : List Token) : Checked Turn := do
  let stop := min b.stop tokens.length
  if ← wrapped limit b tokens stop then
    let tokens ← remove tokens (← minus stop 1)
    let tokens ← remove tokens b.start
    begin b tokens (← minus stop 2)
  else begin b tokens stop

/-- The loop ends, after finitely many turns: with an answer and a sequence, or with a
violation. -/
inductive Ends : Checked Turn → Checked (Except ReductionError String × List Token) → Prop where
  | violation (v : Violation) : Ends (.error v) (.error v)
  | ended (answer : Except ReductionError String) (left : List Token) :
      Ends (.ok (.ended answer left)) (.ok (answer, left))
  | again {s : State} {outcome : Checked (Except ReductionError String × List Token)}
      (rest : Ends (turn limit b s) outcome) : Ends (.ok (.again s)) outcome

variable {limit b}

theorem Ends.unique {t : Checked Turn} {o o' : Checked (Except ReductionError String × List Token)}
    (h : Ends limit b t o) (h' : Ends limit b t o') : o = o' := by
  induction h with
  | violation v =>
      cases h'
      rfl
  | ended answer left =>
      cases h'
      rfl
  | again _ ih =>
      cases h' with
      | again rest => exact ih rest

/-! ## Accesses that are in range -/

theorem ok_bind {α β : Type} (x : α) (f : α → Checked β) : (Except.ok x >>= f) = f x := rfl

section Access

variable {tokens front middle rest : List Token} {t u : Token} {i j : Nat}

theorem plus_of_le (h : i + j ≤ limit) : plus limit i j = .ok (i + j) := if_pos h

theorem minus_of_le (h : j ≤ i) : minus i j = .ok (i - j) := if_pos h

theorem read_append (h : i = front.length) : read (front ++ t :: rest) i = .ok t := by
  simp [read, h]

theorem slice_append (hi : i = front.length) (hj : j = front.length + middle.length) :
    slice (front ++ (middle ++ rest)) i j = .ok middle := by
  have hrange : i ≤ j ∧ j ≤ (front ++ (middle ++ rest)).length := by
    rw [List.length_append, List.length_append]
    omega
  rw [slice, if_pos hrange, hi, hj, List.take_length_add_append, List.drop_left, List.take_left]

theorem write_append (h : i = front.length) :
    write (front ++ t :: rest) i u = .ok (front ++ u :: rest) := by
  simp [write, h]

theorem drain_append (hi : i = front.length) (hj : j = front.length + middle.length) :
    drain (front ++ (middle ++ rest)) i j = .ok (front ++ rest) := by
  have hrange : i ≤ j ∧ j ≤ (front ++ (middle ++ rest)).length := by
    rw [List.length_append, List.length_append]
    omega
  rw [drain, if_pos hrange, hi, hj, List.take_left, List.drop_length_add_append, List.drop_left]

theorem remove_append (h : i = front.length) :
    remove (front ++ t :: rest) i = .ok (front ++ rest) := by
  simp [remove, h, List.eraseIdx_append_of_length_le]

end Access

/-! ## A turn -/

variable {before region after : List Token} {s : State}

/-- Between turns the region stands where the block begins, it is not empty, and the
counter is at least the number of its operators. -/
structure Stands (limit : Nat) (b : Block) (before region after : List Token) (s : State) :
    Prop where
  tokens_eq : s.tokens = before ++ (region ++ after)
  start_eq : b.start = before.length
  stop_eq : s.stop = before.length + region.length
  ne_nil : region ≠ []
  countP_le : region.countP (fun t => t.operator?.isSome) ≤ s.pending
  length_le : s.tokens.length ≤ limit

/-- The counter never hides an operator. -/
theorem Stands.next?_eq (h : Stands limit b before region after s) :
    next? b s = .ok (leftmostOf? Tier.all region) := by
  rw [next?]
  split
  · next hzero =>
    have hnone : leftmostOf? Tier.all region = none := by
      rw [Option.eq_none_iff_forall_ne_some]
      rintro ⟨index, op⟩ hfound
      obtain ⟨front, t, rest, rfl, _, ht, _⟩ := passes_of_leftmostOf? hfound
      have hcount := h.countP_le
      rw [hzero, Nat.le_zero, List.countP_eq_zero] at hcount
      exact hcount t (List.mem_append_right _ List.mem_cons_self) (by rw [ht]; rfl)
    rw [hnone]
    rfl
  · rw [h.tokens_eq, slice_append h.start_eq h.stop_eq]
    rfl

theorem Stands.turn_of_none (h : Stands limit b before region after s)
    (hnone : leftmostOf? Tier.all region = none) :
    ∃ answer left, turn limit b s = .ok (.ended answer left) ∧
      answerOf b before after (reduceAll region) = (answer, left) := by
  have hreduce : reduceAll region = .ok region := passes_of_leftmostOf?_eq_none hnone
  obtain ⟨t, rest, rfl⟩ := List.exists_cons_of_ne_nil h.ne_nil
  refine ⟨.ok t.text, before ++ (t :: rest ++ after), ?_, by rw [hreduce]; rfl⟩
  rw [turn, h.next?_eq, hnone, h.tokens_eq]
  simp only [bind, Except.bind, List.cons_append, read_append h.start_eq]
  rfl

theorem Stands.turn_of_some (h : Stands limit b before region after s) {offset : Nat}
    {op : Operator} (hfound : leftmostOf? Tier.all region = some (offset, op)) :
    turn limit b s = reduceAt limit b s offset op := by
  rw [turn, h.next?_eq, hfound]
  rfl

section Found

variable {front rest : List Token} {t : Token} {op : Operator}

theorem Stands.reduceAt_of_edge (h : Stands limit b before (front ++ t :: rest) after s)
    (hedge : front = [] ∨ rest = []) :
    reduceAt limit b s front.length op =
      .ok (.ended (.error (.malformedBlock b.start b.stop)) s.tokens) := by
  have hlength := h.length_le
  have hstop := h.stop_eq
  have hstart := h.start_eq
  simp only [h.tokens_eq, List.length_append, List.length_cons] at hlength hstop
  rw [reduceAt, plus_of_le (by omega)]
  simp only [ok_bind]
  rcases hedge with rfl | rfl
  · rw [List.length_nil, Nat.add_zero, if_pos rfl]
    rfl
  · rw [List.length_nil] at hstop
    split
    · rfl
    · rw [plus_of_le (by omega), ok_bind, if_pos (by omega)]
      rfl

/-- Three tokens side by side, the middle one an operator with its index at `offset` from
the start of the block, become one. -/
theorem reduceAt_of_tokens_eq {head tail : List Token} {left right : Token} {offset : Nat}
    (htokens : s.tokens = head ++ left :: ([t, right] ++ tail))
    (hindex : b.start + offset = head.length + 1) (hstart : b.start ≤ head.length)
    (hstop : head.length + 2 < s.stop) (hlimit : s.stop ≤ limit) (hpending : s.pending ≠ 0) :
    reduceAt limit b s offset op =
      .ok (.again ⟨head ++ ([resultToken op left right] ++ tail), s.stop - 2, s.pending - 1⟩) := by
  have hleft : read s.tokens head.length = .ok left := by
    rw [htokens]
    exact read_append rfl
  have hright : read s.tokens (head.length + 2) = .ok right := by
    have hsplit : s.tokens = (head ++ [left, t]) ++ right :: tail := by
      rw [htokens, List.append_assoc]
      rfl
    rw [hsplit]
    exact read_append (by rw [List.length_append]; rfl)
  have hwrite : write s.tokens head.length (resultToken op left right) =
      .ok (head ++ resultToken op left right :: ([t, right] ++ tail)) := by
    rw [htokens]
    exact write_append rfl
  have hdrain : drain (head ++ resultToken op left right :: ([t, right] ++ tail))
      (head.length + 1) (head.length + 3) =
        .ok (head ++ ([resultToken op left right] ++ tail)) := by
    rw [List.append_cons, ← List.append_assoc head]
    exact drain_append (by rw [List.length_append]; rfl) (by rw [List.length_append]; rfl)
  rw [reduceAt, plus_of_le (by omega), hindex]
  simp only [ok_bind]
  -- no test fails, and no access is out of range
  rw [if_neg (by omega), plus_of_le (by omega), ok_bind, if_neg (by omega),
    minus_of_le (by omega), ok_bind, Nat.add_sub_cancel, hleft, ok_bind, hright, ok_bind, hwrite,
    ok_bind, plus_of_le (by omega), ok_bind, hdrain, ok_bind, minus_of_le (by omega), ok_bind,
    minus_of_le (by omega), ok_bind]
  rfl

/-- An operator with tokens of the region on both sides is reduced, and the region that is
left of it stands where it stood. -/
theorem Stands.reduceAt_of_operands {front' rest' : List Token} {left right : Token}
    (h : Stands limit b before (front' ++ [left] ++ t :: right :: rest') after s)
    (ht : t.operator? = some op) :
    ∃ s', reduceAt limit b s (front' ++ [left]).length op = .ok (.again s') ∧
      Stands limit b before (front' ++ resultToken op left right :: rest') after s' ∧
      s'.pending < s.pending := by
  have hlength := h.length_le
  have hstop := h.stop_eq
  have hstart := h.start_eq
  have hcount := h.countP_le
  simp only [h.tokens_eq, List.length_append, List.length_cons, List.length_nil] at hlength hstop
  simp only [List.countP_append, List.countP_cons, ht, Option.isSome_some, if_true] at hcount
  have htokens : s.tokens =
      (before ++ front') ++ left :: ([t, right] ++ (rest' ++ after)) := by
    rw [h.tokens_eq]
    simp
  have hhead : (before ++ front').length = before.length + front'.length := List.length_append
  have hoffset : (front' ++ [left]).length = front'.length + 1 := List.length_append
  refine ⟨_, reduceAt_of_tokens_eq htokens (by omega) (by omega) (by omega) (by omega) (by omega),
    ?_, Nat.sub_one_lt (by omega)⟩
  exact
    { tokens_eq := by simp
      start_eq := hstart
      stop_eq := by
        simp only [List.length_append, List.length_cons]
        omega
      ne_nil := by simp
      countP_le := by
        simp only [List.countP_append, List.countP_cons, operator?_resultToken,
          Option.isSome_none, Bool.false_eq_true, if_false]
        omega
      length_le := by
        simp only [List.length_append, List.length_singleton]
        omega }

end Found

/-- A turn ends the loop with what the passes over the region come to, or leaves a region
over which they come to the same, and counts down. -/
theorem Stands.turn_cases (h : Stands limit b before region after s) :
    (∃ answer left, turn limit b s = .ok (.ended answer left) ∧
      answerOf b before after (reduceAll region) = (answer, left)) ∨
    ∃ s' region', turn limit b s = .ok (.again s') ∧
      Stands limit b before region' after s' ∧ s'.pending < s.pending ∧
      reduceAll region = reduceAll region' := by
  cases hfound : leftmostOf? Tier.all region with
  | none => exact .inl (h.turn_of_none hfound)
  | some found =>
      obtain ⟨offset, op⟩ := found
      obtain ⟨front, t, rest, rfl, rfl, ht, hedge, hstep⟩ := passes_of_leftmostOf? hfound
      rw [h.turn_of_some hfound]
      rcases List.eq_nil_or_concat front with hfront | ⟨front', left, hfront⟩
      · refine .inl ⟨_, _, h.reduceAt_of_edge (.inl hfront), ?_⟩
        rw [reduceAll_eq_passes, hedge (.inl hfront), h.tokens_eq]
        rfl
      · cases rest with
        | nil =>
            refine .inl ⟨_, _, h.reduceAt_of_edge (.inr rfl), ?_⟩
            rw [reduceAll_eq_passes, hedge (.inr rfl), h.tokens_eq]
            rfl
        | cons right rest' =>
            rw [List.concat_eq_append] at hfront
            subst hfront
            obtain ⟨s', hs', hstands, hlt⟩ := h.reduceAt_of_operands ht
            exact .inr ⟨s', _, hs', hstands, hlt, hstep front' left right rest' rfl rfl⟩

/-! ## A run -/

theorem Stands.ends (h : Stands limit b before region after s) :
    Ends limit b (.ok (.again s)) (.ok (answerOf b before after (reduceAll region))) := by
  -- the counter bounds the number of turns
  induction hpending : s.pending using Nat.strongRecOn generalizing s region with
  | ind pending ih =>
      rcases h.turn_cases with ⟨answer, left, hturn, hanswer⟩ |
        ⟨s', region', hturn, hstands, hlt, hreduce⟩
      · rw [hanswer]
        exact .again (hturn ▸ .ended answer left)
      · rw [hreduce]
        exact .again (hturn ▸ ih s'.pending (hpending ▸ hlt) hstands rfl)

theorem isOperator_of_operator? {t : Token} (h : t.operator?.isSome) : t.isOperator := by
  rw [Token.operator?] at h
  split at h
  · assumption
  · cases h

/-- From the first turn on, a region ends with what the passes over it come to. -/
theorem ends_begin (hstart : b.start = before.length)
    (hlength : (before ++ (region ++ after)).length ≤ limit) :
    Ends limit b (begin b (before ++ (region ++ after)) (before.length + region.length))
      (.ok (answerOf b before after (reduceAll region))) := by
  rw [begin]
  split
  · next hle =>
    have hnil : region = [] := by
      rw [← List.length_eq_zero_iff]
      omega
    subst hnil
    exact .ended _ _
  · next hlt =>
    rw [slice_append hstart rfl]
    refine Stands.ends ⟨rfl, hstart, rfl, ?_, ?_, hlength⟩
    · rintro rfl
      exact hlt (by simp [hstart])
    · exact List.countP_mono_left fun t _ => isOperator_of_operator?

theorem append_cons_concat (before inner after : List Token) (first last : Token) :
    before ++ (first :: (inner ++ [last]) ++ after) =
      (before ++ first :: inner) ++ last :: after := by simp

theorem wrapped_cases (hstart : b.start = before.length) (hne : region ≠ [])
    (hlimit : b.start + 2 ≤ limit) :
    (wrapped limit b (before ++ (region ++ after)) (before.length + region.length) = .ok true ∧
      ∃ first last, region = first :: (unwrap region ++ [last])) ∨
    (wrapped limit b (before ++ (region ++ after)) (before.length + region.length) = .ok false ∧
      unwrap region = region) := by
  obtain ⟨first, rest, rfl⟩ := List.exists_cons_of_ne_nil hne
  rw [wrapped, plus_of_le hlimit, ok_bind]
  rcases List.eq_nil_or_concat rest with rfl | ⟨inner, last, rfl⟩
  · refine .inr ⟨?_, by simp [unwrap]⟩
    rw [if_neg (by simp [hstart])]
    rfl
  · rw [List.concat_eq_append]
    have hunwrap : unwrap (first :: (inner ++ [last])) =
        if first.isParenthesis && last.isParenthesis then inner
        else first :: (inner ++ [last]) := by simp [unwrap]
    have hfirst : read (before ++ (first :: (inner ++ [last]) ++ after)) b.start = .ok first :=
      read_append hstart
    have hlast : read (before ++ (first :: (inner ++ [last]) ++ after))
        (before.length + (first :: (inner ++ [last])).length - 1) = .ok last := by
      rw [append_cons_concat]
      exact read_append (by simp)
    rw [if_pos (by simp [hstart]), hfirst, ok_bind, minus_of_le (by simp; omega), ok_bind, hlast,
      ok_bind, hunwrap]
    cases first.isParenthesis <;> cases last.isParenthesis
    · exact .inr ⟨rfl, rfl⟩
    · exact .inr ⟨rfl, rfl⟩
    · exact .inr ⟨rfl, rfl⟩
    · exact .inl ⟨rfl, first, last, rfl⟩

/-- A call ends without a violation, and as `reduceBlock` does. -/
theorem ends_enter {tokens : List Token} (hlimit : b.start + 2 ≤ limit)
    (hlength : tokens.length ≤ limit) :
    Ends limit b (enter limit b tokens) (.ok (reduceBlock tokens b)) := by
  rcases Nat.lt_or_ge b.start (min b.stop tokens.length) with hlt | hle
  · obtain ⟨before, region, after, rfl, hstart, hne, hstop, hreduce⟩ := exists_split_of_lt hlt
    rw [hreduce, enter, hstop, ← hstart]
    rcases wrapped_cases hstart.symm hne hlimit with ⟨hfound, first, last, hregion⟩ |
      ⟨hfound, hregion⟩
    · -- the last parenthesis is removed first, so that the index of the first one holds
      generalize unwrap region = inner at hregion ⊢
      subst hregion
      have hregionLength : (first :: (inner ++ [last])).length = inner.length + 2 := by simp
      have hinner : (before ++ (inner ++ after)).length ≤ limit := by
        simp only [List.length_append, List.length_cons] at hlength ⊢
        omega
      have hlast : remove ((before ++ first :: inner) ++ last :: after)
          (before.length + (inner.length + 2) - 1) =
          .ok (before ++ first :: (inner ++ after)) := by
        rw [remove_append (by simp), List.append_assoc]
        rfl
      rw [hfound, append_cons_concat, hregionLength, ok_bind, if_pos rfl,
        minus_of_le (by omega), ok_bind, hlast, ok_bind, remove_append rfl, ok_bind,
        minus_of_le (by omega), ok_bind, ← Nat.add_assoc, Nat.add_sub_cancel]
      exact ends_begin hstart.symm hinner
    · rw [hfound, hregion]
      exact ends_begin hstart.symm hlength
  · rw [reduceBlock_of_le hle, enter, wrapped, plus_of_le hlimit, ok_bind, if_neg (by omega)]
    simp only [pure, Except.pure, ok_bind, Bool.false_eq_true, if_false]
    rw [begin, if_pos hle]
    exact .ended _ _

/-- Whatever the tokens are and wherever the block lies, a call ends, and without a
violation: it has one outcome, an answer and a sequence, which are those of `reduceBlock`.
The sequence differs from the one before the call within the block only. -/
theorem ends_enter_iff (limit : Nat) (tokens : List Token) (b : Block)
    (hlimit : b.start + 2 ≤ limit) (hlength : tokens.length ≤ limit) :
    ∃ answer left,
      (∀ outcome, Ends limit b (enter limit b tokens) outcome ↔ outcome = .ok (answer, left)) ∧
      reduceBlock tokens b = (answer, left) ∧ Confined tokens b answer left := by
  have hends := ends_enter hlimit hlength
  refine ⟨_, _, fun outcome => ⟨fun h => h.unique hends, ?_⟩, rfl, confined_reduceBlock tokens b⟩
  rintro rfl
  exact hends

/-- A block that reaches past the end, in parentheses that do not match, and with an operator
that is none: the failure comes after a reduction. -/
theorem ends_enter_iff_unknown :
    let tokens : List Token := [.error "?", .closing, .number "5", .operator .multiply,
      .number "2", ⟨.operator, "^"⟩, .operator .add, .closing]
    let b : Block := ⟨7, 3, 1, 99⟩
    let left : List Token := [.error "?", .number "10", ⟨.operator, "^"⟩, .operator .add]
    let limit := UInt64.size - 1
    b.start + 2 ≤ limit ∧ tokens.length ≤ limit ∧
      (∀ outcome, Ends limit b (enter limit b tokens) outcome ↔
        outcome = .ok (.error (.malformedBlock 1 99), left)) ∧
      Confined tokens b (.error (.malformedBlock 1 99)) left := by
  intro tokens b left limit
  have hlimit : b.start + 2 ≤ limit := by decide
  have hlength : tokens.length ≤ limit := by decide
  have hreduce : reduceBlock tokens b = (.error (.malformedBlock 1 99), left) := by decide +kernel
  obtain ⟨answer, left', hends, heq, hconfined⟩ := ends_enter_iff limit tokens b hlimit hlength
  obtain ⟨rfl, rfl⟩ := Prod.mk.inj (hreduce.symm.trans heq)
  exact ⟨hlimit, hlength, hends, hconfined⟩

end Reduction
end Stepwise
