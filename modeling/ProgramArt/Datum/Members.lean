import ProgramArt.Datum.Order
import ProgramArt.Number.Residue

/-!
# The members of a set

A set keeps its members in a row of places, and they are met in the order of the places. The place of a number follows
from its residue. If it is taken, the nearest of the next few places is tried that is free, and after them other
stretches of the row, in an order that depends on the residue (`Row.put`).
-/

namespace ProgramArt

/-- The residue of a number. NaN has none. -/
def Datum.residue? : Datum → Option Nat
  | bool value => some (if value then 1 else 0)
  | int value => some (Residue.ofInt value)
  | float value => if value.isNaN then none else some (Residue.ofFloat value)
  | _ => none

/-- The places of a set. -/
abbrev Row := Array (Option Datum)

namespace Row

/-- The number of places for the members of a set: a power of two, at least eight, and more than twice
the members if there are five or more. -/
def sizeFor (members : Nat) : Nat :=
  if members < 5 then 8 else Nat.pow 2 ((2 * members).log2 + 1)

/-- How many places after the first of a stretch are tried. -/
def stretch : Nat := 9

/-- Whether a place is free. -/
def isFree (row : Row) (place : Nat) : Bool :=
  match row[place]? with
  | some none => true
  | _ => false

/-- The first free place of the stretch that starts at a place. A stretch that does not fit into the row
is that place alone. -/
def freeFrom? (row : Row) (start : Nat) : Option Nat :=
  let count := if start + stretch < row.size then stretch + 1 else 1
  (List.range' start count).find? row.isFree

/-- The free place for a member, looked for in one stretch after the other. What is left of the residue
leads to the next one, and once nothing is left of it, every place starts a stretch in turn. -/
def place? (row : Row) : Nat → Nat → Nat → Option Nat
  | 0, _, _ => none
  | rounds + 1, start, residue =>
    match row.freeFrom? start with
    | some place => some place
    | none =>
      let residue := residue / Nat.pow 2 5
      row.place? rounds ((start * 5 + 1 + residue) % row.size) residue

/-- Put a member with the given residue into a free place. -/
def put (row : Row) (member : Datum) (residue : Nat) : Row :=
  match row.place? (row.size + 13) (residue % row.size) residue with
  | some place => row.set! place (some member)
  | none => row

end Row

/-- The members of a set in the order in which they stand. Members that are not all numbers stand as
they came. -/
def Datum.arrangeMembers (members : List Datum) : List Datum :=
  match members.mapM residue? with
  | none => members
  | some residues =>
    let start : Row := Array.replicate (Row.sizeFor members.length) none
    let row := (members.zip residues).foldl (fun row (member, residue) => row.put member residue) start
    row.toList.filterMap id

end ProgramArt
