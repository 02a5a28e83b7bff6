import ProgramArt.Ranking.Merge
import ProgramArt.Ranking.Run

/-!
# Arranging by runs

A list is arranged by merging its runs, neighbours only. Which neighbours are merged first depends on where they meet:
the borders between runs are the nodes of a nearly balanced tree over the list, and the deeper borders go first
(`depth`). Where the comparison is an order, the result is sorted, and members that compare as equal keep their order.
Members that compare with nothing, such as numbers that are not a number, have no place in any order; where they end
is what the merges make of them. A comparison may also have no answer; then there is no arranged list if it is asked
for.
-/

namespace ProgramArt.Ranking

variable {α : Type}

/-- The first binary place in which two parts of a whole differ, the lesser one first. -/
def differingPlace (whole : Nat) : Nat → Nat → Nat → Nat
  | 0, _, _ => 0
  | rounds + 1, a, b =>
    if whole ≤ a then differingPlace whole rounds (2 * (a - whole)) (2 * (b - whole)) + 1
    else if whole ≤ b then 1
    else differingPlace whole rounds (2 * a) (2 * b) + 1

/-- How deep the border between two runs lies in a list of a given length: the first binary place in
which the middles of the runs differ. -/
def depth (length start first second : Nat) : Nat :=
  let middle := 2 * start + first
  differingPlace length (length + 2) middle (middle + first + second)

/-- A run that waits, with the depth of the border behind it. -/
structure Waiting (α : Type) where
  start : Nat
  members : List α
  depth : Nat := 0

/-- The runs that wait, the last of them first, and how often one side of a merge has to win in a row
before the merge strides. -/
structure Arranging (α : Type) where
  waiting : List (Waiting α) := []
  patience : Nat := longStride

namespace Arranging

variable (less : α → α → Option Bool)

/-- Merge two runs that wait. -/
def merged (patience : Nat) (first second : Waiting α) : Option (Waiting α × Nat) := do
  let (members, patience) ← merge? less patience first.members second.members
  return ({ first with members }, patience)

/-- Merge the last two runs as long as the border between them lies deeper than the next one. -/
def settle (depth : Nat) : Nat → Arranging α → Option (Arranging α)
  | 0, s => some s
  | rounds + 1, s =>
    match s.waiting with
    | second :: first :: rest => do
      if depth < first.depth then
        let (run, patience) ← merged less s.patience first second
        settle depth rounds ⟨run :: rest, patience⟩
      else return s
    | _ => some s

/-- Let one more run wait. -/
def push (length : Nat) (s : Arranging α) (members : List α) : Option (Arranging α) :=
  match s.waiting with
  | [] => some { s with waiting := [⟨0, members, 0⟩] }
  | last :: _ => do
    let size := last.members.length
    let border := depth length last.start size members.length
    let s ← settle less border s.waiting.length s
    let waiting :=
      match s.waiting with
      | top :: rest => { top with depth := border } :: rest
      | [] => []
    return { s with waiting := ⟨last.start + size, members, 0⟩ :: waiting }

/-- Merge all runs that wait, from the end on; the two before the last one go first if the first of them
is shorter than the last. -/
def finish : Nat → Arranging α → Option (List α)
  | 0, s => some (s.waiting.reverse.flatMap Waiting.members)
  | rounds + 1, s =>
    match s.waiting with
    | third :: second :: first :: rest => do
      if first.members.length < third.members.length then
        let (run, patience) ← merged less s.patience first second
        finish rounds ⟨third :: run :: rest, patience⟩
      else
        let (run, patience) ← merged less s.patience second third
        finish rounds ⟨run :: first :: rest, patience⟩
    | [second, first] => do
      let (run, _) ← merged less s.patience first second
      return run.members
    | [run] => some run.members
    | [] => some []

end Arranging

/-- The members of a list, arranged in rising order. -/
def arrange? (less : α → α → Option Bool) (members : List α) : Option (List α) := do
  let runs ← runs? less members
  let s ← runs.foldlM (Arranging.push less members.length) {}
  s.finish less runs.length

end ProgramArt.Ranking
