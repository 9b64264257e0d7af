import Stepwise.Proofs.Reduction.Pass

/-!
# Reducing a region where it stands

A region is numbers with operators between them, bare or in parentheses.  It has one
tree, and a block that covers it is reduced to the result of that tree.  What stands
before and after the region is not looked at: it need be no part of an expression, and
the texts of the numbers need be no literals.

Nothing is said here of blocks that cover anything else.
-/

namespace Stepwise

open Structure (Flat Derives)

namespace Reduction

/-- Numbers with operators between them: the first, and each further one after its
operator. -/
def alternating (first : String) (more : List (Operator × String)) : List Token :=
  .number first :: more.flatMap fun (op, text) => [.operator op, .number text]

/-- The numbers and operators, in parentheses or bare. -/
def regionOf (inParentheses : Bool) (first : String) (more : List (Operator × String)) :
    List Token :=
  if inParentheses then .opening :: (alternating first more ++ [.closing])
  else alternating first more

variable {first : String} {more : List (Operator × String)}

theorem flat_alternating : Flat (alternating first more) := by
  refine List.forall_mem_cons.mpr ⟨rfl, ?_⟩
  intro t ht
  obtain ⟨⟨op, text⟩, _, hmem⟩ := List.mem_flatMap.mp ht
  rcases List.mem_cons.mp hmem with rfl | hmem
  · rfl
  · rw [List.mem_singleton.mp hmem]
    rfl

theorem derives_alternating (first : String) (more : List (Operator × String)) :
    Derives (fun _ => True) .expression (alternating first more) := by
  induction more generalizing first with
  | nil => exact .single (.number trivial)
  | cons pair more ih =>
      obtain ⟨op, text⟩ := pair
      have hfirst : Derives (fun _ => True) .expression [.number first] := .single (.number trivial)
      exact hfirst.append_chain op (ih text)

theorem unwrap_regionOf (inParentheses : Bool) :
    unwrap (regionOf inParentheses first more) = alternating first more := by
  cases inParentheses with
  | true => exact unwrap_group _
  | false => exact unwrap_of_flat flat_alternating

/-- Reducing a block that covers numbers with operators between them, bare or in
parentheses: they have one tree, and a number with its result takes their place between
the tokens around them.  Without an operator the number is the one that was there. -/
theorem reduceBlock_regionOf (before after : List Token) (inParentheses : Bool) (first : String)
    (more : List (Operator × String)) (b : Block) (hstart : b.start = before.length)
    (hstop : b.stop = before.length + (regionOf inParentheses first more).length) :
    ∃ tree, (∀ other, Reads 3 (alternating first more) other ↔ other = tree) ∧
      reduceBlock (before ++ (regionOf inParentheses first more ++ after)) b =
        (.ok tree.result, before ++ .number tree.result :: after) ∧
      (more = [] → tree.result = first) := by
  obtain ⟨tree, hreads⟩ := exists_reads (derives_alternating first more)
  have hunique : ∀ other, Reads 3 (alternating first more) other ↔ other = tree := by
    intro other
    refine ⟨fun hother => hreads.eq_of_flat hother flat_alternating, ?_⟩
    rintro rfl
    exact hreads
  refine ⟨tree, hunique, ?_, ?_⟩
  · exact reduceBlock_of_reads hstart hstop (unwrap_regionOf inParentheses) flat_alternating hreads
  · rintro rfl
    rw [← (hunique (.literal first)).mp ((Reads.literal first).lift (Nat.zero_le 3))]
    rfl

/-- Operators of all levels, bare, and in parentheses a product between two differences.
What stands around them is no part of an expression. -/
theorem reduceBlock_regionOf_allLevels :
    let bare := [⟨.number, "8"⟩, ⟨.operator, "-"⟩, ⟨.number, "2"⟩, ⟨.operator, "*"⟩,
      ⟨.number, "3"⟩, ⟨.operator, "**"⟩, ⟨.number, "2"⟩, ⟨.operator, "%"⟩, ⟨.number, "5"⟩,
      ⟨.operator, "+"⟩, ⟨.number, "6"⟩, ⟨.operator, "/"⟩, ⟨.number, "4"⟩]
    let group := [⟨.parenthesis, "("⟩, ⟨.number, "8"⟩, ⟨.operator, "-"⟩, ⟨.number, "2"⟩,
      ⟨.operator, "*"⟩, ⟨.number, "3"⟩, ⟨.operator, "-"⟩, ⟨.number, "1"⟩, ⟨.parenthesis, ")"⟩]
    let before := [⟨.parenthesis, ")"⟩, ⟨.error, "?"⟩]
    let after := [⟨.operator, "/"⟩]
    reduceBlock (before ++ (bare ++ after)) ⟨0, 0, 2, 15⟩ =
        (.ok Tree.allLevels.result, before ++ ⟨.number, Tree.allLevels.result⟩ :: after) ∧
      reduceBlock (before ++ (group ++ after)) ⟨0, 0, 2, 11⟩ =
        (.ok "1", before ++ ⟨.number, "1"⟩ :: after) := by
  intro bare group before after
  obtain ⟨tree, hunique, hreduce, _⟩ := reduceBlock_regionOf before after false "8"
    [(.subtract, "2"), (.multiply, "3"), (.power, "2"), (.remainder, "5"), (.add, "6"),
      (.divide, "4")] ⟨0, 0, 2, 15⟩ rfl rfl
  obtain ⟨tree', hunique', hreduce', _⟩ := reduceBlock_regionOf before after true "8"
    [(.subtract, "2"), (.multiply, "3"), (.subtract, "1")] ⟨0, 0, 2, 11⟩ rfl rfl
  have htree : Tree.allLevels = tree := (hunique _).mp reads_allLevels
  have hdifference := Reads.join .subtract (.number "8" 3)
    (Reads.join .multiply (.number "2" 2) (.number "3" 1))
  have htree' := (hunique' _).mp (Reads.join .subtract hdifference (.number "1" 2))
  have hresult' : tree'.result = "1" := by
    rw [← htree']
    decide +kernel
  rw [← htree] at hreduce
  rw [hresult'] at hreduce'
  exact ⟨hreduce, hreduce'⟩

end Reduction
end Stepwise
