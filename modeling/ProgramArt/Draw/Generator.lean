import ProgramArt.Draw.Twister

/-!
# Sources chosen at run time

A generator is either of the two sources at hand: the twister, or a script.
-/

namespace ProgramArt.Draw

/-- A twister or a script. -/
inductive Generator where
  | twister (source : Twister)
  | script (source : Script)

instance : Source Generator where
  unit
    | .twister source =>
      let (x, rest) := source.unit
      (.ok x, .twister rest)
    | .script source =>
      let (x, rest) := Source.unit source
      (x, .script rest)
  below bound
    | .twister source =>
      let (n, rest) := source.below bound
      (.ok n, .twister rest)
    | .script source =>
      let (n, rest) := Source.below bound source
      (n, .script rest)

end ProgramArt.Draw
