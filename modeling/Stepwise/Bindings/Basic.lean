import Stepwise.Decimal.Text

/-!
# Bindings of letters to numbers

A letter stands for a number when it is bound and makes up a whole token.
Binding a letter again replaces its number.
-/

namespace Stepwise

/-- Bound characters with their numbers, the latest first. -/
structure Bindings where
  entries : List (Char × Binary64)
deriving DecidableEq

namespace Bindings

def empty : Bindings := ⟨[]⟩

/-- Binds a character, in place of any earlier binding of it. -/
def insert (b : Bindings) (name : Char) (value : Binary64) : Bindings :=
  ⟨(name, value) :: b.entries⟩

def get? (b : Bindings) (name : Char) : Option Binary64 := b.entries.lookup name

@[simp] theorem get?_empty (name : Char) : empty.get? name = none := rfl

@[simp] theorem get?_insert (b : Bindings) (name : Char) (value : Binary64) (other : Char) :
    (b.insert name value).get? other = if other = name then some value else b.get? other := by
  simp only [get?, insert, List.lookup_cons]
  cases h : other == name
  · simp [beq_eq_false_iff_ne.mp h]
  · simp [beq_iff_eq.mp h]

/-- The ASCII letter that a text consists of, if it is a single one. -/
def letter? : List Char → Option Char
  | [c] => if c.isAlpha then some c else none
  | _ => none

/-- The number that a text stands for: it has to be one bound letter. -/
def resolve? (b : Bindings) (cs : List Char) : Option Binary64 :=
  (letter? cs).bind b.get?

@[simp] theorem resolve?_empty (cs : List Char) : empty.resolve? cs = none := by
  cases h : letter? cs <;> simp [resolve?, h]

end Bindings
end Stepwise
