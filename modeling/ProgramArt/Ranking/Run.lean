/-!
# Rising runs

A list falls into runs that rise already, or that fall at every step and are turned around (`firstRun`). A run that is
too short takes in the members behind it, each at the place that is found by halving the run. A comparison may have no
answer; then there are no runs if it is asked for.
-/

namespace ProgramArt.Ranking

variable {α : Type}

/-- The longest beginning of a list that continues a chain from `a`, and the rest. -/
def chain (linked : α → α → Option Bool) (a : α) : List α → Option (List α × List α)
  | [] => some ([], [])
  | b :: rest => do
    if ← linked a b then
      let (run, rest) ← chain linked b rest
      return (b :: run, rest)
    else return ([], b :: rest)

/-- The run that a list begins with, in rising order, and the rest. A run that falls at every step is
turned around. -/
def firstRun (less : α → α → Option Bool) : List α → Option (List α × List α)
  | a :: b :: rest => do
    if ← less b a then
      let (run, rest) ← chain (fun x y => less y x) b rest
      return ((a :: b :: run).reverse, rest)
    else
      let (run, rest) ← chain (fun x y => (less y x).map not) b rest
      return (a :: b :: run, rest)
  | short => some (short, [])

/-- The place of a member among those of a run from `low` on, up to `high`: behind all that it is not
below. -/
def place (less : α → α → Option Bool) (a : α) (run : Array α) (low high : Nat) : Option Nat :=
  if _h : low < high then
    let middle := low + (high - low) / 2
    match run[middle]?.elim (some false) (less a) with
    | none => none
    | some true => place less a run low middle
    | some false => place less a run (middle + 1) high
  else some low
termination_by high - low
decreasing_by all_goals omega

/-- Put a member into a run at its place. -/
def insert (less : α → α → Option Bool) (run : Array α) (a : α) : Option (Array α) := do
  let i ← place less a run 0 run.size
  return run.take i ++ #[a] ++ run.drop i

/-- The least length of runs in a list of a given length: the length itself if it is below 64, and
otherwise its first six binary digits, rounded up. -/
def leastRun (length : Nat) : Nat :=
  if length < 64 then length
  else
    let unit := Nat.pow 2 (length.log2 - 5)
    (length + unit - 1) / unit

/-- The runs of a list, none but the last shorter than the least length. Each takes in one member at
least, so as many rounds are enough as the list has members. -/
def runsFrom (less : α → α → Option Bool) (least : Nat) : Nat → List α → Option (List (List α))
  | 0, _ | _, [] => some []
  | rounds + 1, members => do
    let (run, rest) ← firstRun less members
    let missing := least - run.length
    let run ← (rest.take missing).foldlM (insert less) run.toArray
    return run.toList :: (← runsFrom less least rounds (rest.drop missing))

/-- The runs of a list. -/
def runs? (less : α → α → Option Bool) (members : List α) : Option (List (List α)) :=
  runsFrom less (leastRun members.length) members.length members

end ProgramArt.Ranking
