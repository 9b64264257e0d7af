import Stepwise.Binary64.Arithmetic

/-!
# The six operators

An operator has a symbol, a tier that says when it is reduced, and a meaning on
numbers.
-/

namespace Stepwise

/-- The precedence groups: powers before products, products before sums. -/
inductive Tier where
  | power
  | product
  | sum
deriving DecidableEq, Repr

namespace Tier

/-- The tiers in the order in which a region is reduced. -/
def all : List Tier := [.power, .product, .sum]

/-- The place of a tier in that order. -/
def rank : Tier → Nat
  | .power => 0
  | .product => 1
  | .sum => 2

theorem rank_injective {t u : Tier} (h : t.rank = u.rank) : t = u := by
  cases t <;> cases u <;> simp_all [rank]

end Tier

inductive Operator where
  | power
  | multiply
  | divide
  | remainder
  | add
  | subtract
deriving DecidableEq, Repr

namespace Operator

/-- The operator as it is written. -/
def symbol : Operator → String
  | .power => "**"
  | .multiply => "*"
  | .divide => "/"
  | .remainder => "%"
  | .add => "+"
  | .subtract => "-"

/-- The operator written as `symbol`, if there is one. -/
def ofSymbol? (symbol : String) : Option Operator :=
  if symbol = "**" then some .power
  else if symbol = "*" then some .multiply
  else if symbol = "/" then some .divide
  else if symbol = "%" then some .remainder
  else if symbol = "+" then some .add
  else if symbol = "-" then some .subtract
  else none

/-- The tier in which an operator is reduced. -/
def tier : Operator → Tier
  | .power => .power
  | .multiply | .divide | .remainder => .product
  | .add | .subtract => .sum

/-- The operator applied to two numbers.  No operand is refused: `1 / 0` is
infinite and `0 / 0` is not-a-number. -/
def apply : Operator → Binary64 → Binary64 → Binary64
  | .power => .pow
  | .multiply => .mul
  | .divide => .div
  | .remainder => .rem
  | .add => .add
  | .subtract => .sub

theorem ofSymbol?_symbol (op : Operator) : ofSymbol? op.symbol = some op := by
  cases op <;> decide

theorem symbol_of_ofSymbol? {symbol : String} {op : Operator}
    (h : ofSymbol? symbol = some op) : op.symbol = symbol := by
  simp only [ofSymbol?] at h
  repeat' split at h
  all_goals first | (injection h with h; subst h; simp_all [Operator.symbol]) | contradiction

end Operator
end Stepwise
