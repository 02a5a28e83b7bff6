/-!
# Orders of addition

Sums of doubles depend on the order in which they are added. An order is a tree whose leaves are the places of the
numbers.
-/

namespace ProgramArt

/-- An order in which the numbers of a row are added up. -/
inductive Summation where
  /-- Nothing is added. -/
  | nothing
  /-- The number at a place. -/
  | item (i : Nat)
  /-- The sum of two sums. -/
  | add (left right : Summation)

namespace Summation

/-- The places of the numbers that are added, from left to right. -/
def items : Summation → List Nat
  | nothing => []
  | item i => [i]
  | add left right => left.items ++ right.items

/-- The sum of the numbers of a row. A place beyond the row counts as zero. -/
def total {α : Type} [Add α] [OfScientific α] (xs : Array α) : Summation → α
  | nothing => 0.0
  | item i => xs.getD i 0.0
  | add left right => left.total xs + right.total xs

end Summation

end ProgramArt
