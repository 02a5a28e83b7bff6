/-!
# Merging two runs

Two rising runs are merged from one of their ends. The members of the shorter run are set aside and those of the other
one flow past them: of the two members at the near ends, the one that comes first is put out. As soon as one side has
won often enough in a row, the merge strides: it looks how far the one side goes on, by steps that double and then by
halving what is left (`reach`), and puts out all of that at once. Striding that brings little is given up again, and
made harder to begin the next time.

Where the comparison is an order, the result is the sorted list of both runs in which equal members keep their places,
and the strides only save comparisons. They show where members compare with nothing.
-/

namespace ProgramArt.Ranking

variable {α : Type}

/-- The end at which a merge starts. -/
inductive End where
  | low
  | high
deriving DecidableEq

/-! ## How far a run goes on -/

/-- How many of the members of a run have a property, if those before `low` have it and those from
`high` on do not. The middle is the one that halving the run from its low end gives. -/
def halved (near : End) (p : α → Option Bool) (run : List α) (low high : Nat) : Option Nat :=
  if _h : low < high then
    let half := (high - low) / 2
    let middle := if near = .low then low + half else high - 1 - half
    match run[middle]?.elim (some false) p with
    | none => none
    | some true => halved near p run (middle + 1) high
    | some false => halved near p run low middle
  else some low
termination_by high - low
decreasing_by all_goals (split <;> omega)

/-- Step on from a member that has a property, to the first step that leads to a member without it or
to the end: the last place with the property and the place of that step. -/
def strides (p : α → Option Bool) (run : List α) : Nat → Nat → Nat → Option (Nat × Nat)
  | 0, last, step => some (last, min step run.length)
  | rounds + 1, last, step =>
    match run[step]? with
    | none => some (last, run.length)
    | some a =>
      match p a with
      | none => none
      | some true => strides p run rounds step (2 * step + 1)
      | some false => some (last, step)

/-- How many members at the beginning of a run have a property. -/
def reach (near : End) (p : α → Option Bool) (run : List α) : Option Nat :=
  match run with
  | [] => some 0
  | first :: _ => do
    if ← p first then
      let (last, step) ← strides p run run.length 0 1
      halved near p run (last + 1) step
    else return 0

/-! ## Merging -/

/-- How often one side has to win in a row at first, and how far a stride has to lead. -/
def longStride : Nat := 7

/-- What a merge does next. -/
inductive Pace where
  /-- Compare two members; the sides have won so often in a row. -/
  | single (aside flowing : Nat)
  | striding
deriving DecidableEq

/-- A merge on its way. Runs are held from their near ends on. -/
structure Merging (α : Type) where
  /-- What has been put out, the last of it first. -/
  out : List α := []
  aside : List α
  flowing : List α
  /-- How often one side has to win in a row. -/
  patience : Nat
  pace : Pace := .single 0 0

namespace Merging

/-- Whether nothing is left to compare: the last member that is set aside comes last of all. -/
def isDone (m : Merging α) : Bool :=
  m.flowing.isEmpty || m.aside.length ≤ 1

/-- All members, in the order of the merge. -/
def result (m : Merging α) : List α :=
  m.out.reverse ++ m.flowing ++ m.aside

/-- Put out members that are set aside. -/
def putAside (count : Nat) (m : Merging α) : Merging α :=
  { m with out := (m.aside.take count).reverse ++ m.out, aside := m.aside.drop count }

/-- Put out members that flow. -/
def putFlowing (count : Nat) (m : Merging α) : Merging α :=
  { m with out := (m.flowing.take count).reverse ++ m.out, flowing := m.flowing.drop count }

variable (near : End) (ahead : α → α → Option Bool)

/-- Whether the first flowing member comes before the first one that is set aside. -/
def flowingFirst (m : Merging α) : Option Bool :=
  match m.flowing, m.aside with
  | f :: _, a :: _ => ahead f a
  | _, _ => some false

/-- Compare two members and put out one. -/
def single (aside flowing : Nat) (m : Merging α) : Option (Merging α) := do
  let (next, aside, flowing) :=
    if ← m.flowingFirst ahead then (m.putFlowing 1, 0, flowing + 1) else (m.putAside 1, aside + 1, 0)
  if !next.isDone && (m.patience ≤ aside || m.patience ≤ flowing) then
    return { next with pace := .striding, patience := m.patience + 1 }
  return { next with pace := .single aside flowing }

/-- A stride over those that are set aside, and one flowing member; how far the stride led. -/
def strideAside (m : Merging α) : Option (Nat × Merging α) := do
  let some first := m.flowing.head? | return (0, m)
  let count ← reach near (fun a => (ahead first a).map not) m.aside
  let m := m.putAside count
  return (count, if m.isDone then m else m.putFlowing 1)

/-- A stride over those that flow, and one that is set aside; how far the stride led. -/
def strideFlowing (m : Merging α) : Option (Nat × Merging α) := do
  let some first := m.aside.head? | return (0, m)
  let count ← reach near (fun f => ahead f first) m.flowing
  let m := m.putFlowing count
  return (count, if m.isDone then m else m.putAside 1)

/-- Two strides, one over each side. A merge from the low end begins with those that are set aside. -/
def stride (m : Merging α) : Option (Merging α) := do
  let m := { m with patience := max 1 (m.patience - 1) }
  let first := if near = .low then strideAside near ahead else strideFlowing near ahead
  let second := if near = .low then strideFlowing near ahead else strideAside near ahead
  let (count, m) ← first m
  if m.isDone then return m
  let (more, m) ← second m
  if m.isDone || longStride ≤ count || longStride ≤ more then return m
  return { m with patience := m.patience + 1, pace := .single 0 0 }

/-- Merge until nothing is left to compare. Every round puts out a member. -/
def run : Nat → Merging α → Option (Merging α)
  | 0, m => some m
  | rounds + 1, m =>
    if m.isDone then some m
    else
      (match m.pace with
        | .single aside flowing => m.single ahead aside flowing
        | .striding => m.stride near ahead).bind (run rounds)

end Merging

/-- The merge of two runs of which the first member comes from the second run and the last one from the
first run, and the patience afterwards. -/
def mergeOverlapping? (less : α → α → Option Bool) (patience : Nat) (as bs : List α) :
    Option (List α × Nat) := do
  let start (aside flowing : List α) : Merging α := Merging.putFlowing 1 { aside, flowing, patience }
  if as.length ≤ bs.length then
    let m ← Merging.run .low less (as.length + bs.length) (start as bs)
    return (m.result, m.patience)
  else
    let m ← Merging.run .high (fun x y => less y x) (as.length + bs.length)
      (start bs.reverse as.reverse)
    return (m.result.reverse, m.patience)

/-- Two neighbouring runs in one, and the patience afterwards. What stands in its place already at the
low end of the first run or at the high end of the second one takes no part. -/
def merge? (less : α → α → Option Bool) (patience : Nat) (as bs : List α) :
    Option (List α × Nat) := do
  let (some first, some last) := (bs.head?, as.getLast?) | return (as ++ bs, patience)
  let low ← reach .low (fun a => (less first a).map not) as
  if low = as.length then return (as ++ bs, patience)
  let high ← reach .high (fun b => (less b last).map not) bs.reverse
  let middle := bs.length - high
  if middle = 0 then return (as ++ bs, patience)
  let (merged, patience) ← mergeOverlapping? less patience (as.drop low) (bs.take middle)
  return (as.take low ++ merged ++ bs.drop middle, patience)

end ProgramArt.Ranking
