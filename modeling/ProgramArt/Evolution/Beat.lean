import ProgramArt.Evolution.Basic

/-!
# Evolving formulas

A random formula is drawn command by command from the variables and the operators on integers (`randomCmds`). Draws
that would empty the stack are rejected, and once the formula is long enough only operators are accepted, until a
single value is left. A mutation replaces commands by others of the same family (`replaceCmd`), so that the height of
the stack stays the same throughout.
-/

namespace ProgramArt.Evolution

open ProgramArt.Beat

/-- Commands of random formulas. -/
def beatChoices : List Cmd := Variable.all.map Cmd.var ++ IntOp.all.map Cmd.intOp

/-- Literals are replaced by whole numbers less than this. -/
def literalRange : Nat := 256

variable {σ : Type} [Draw.Source σ]

/-- Draw the commands that follow the `count` already made, which leave `depth` values. -/
def randomCmds (length : Int) :
    (fuel : Nat) → (count : Nat) → (depth : Int) → (made : List Cmd) → Evolving σ (List Cmd)
  | 0, _, _, _ => throw .stalled
  | fuel + 1, count, depth, made =>
    if (count : Int) < length ∨ depth ≠ 1 then do
      let cmd ← drawFrom beatChoices
      let change := cmd.effect.getD 0
      -- an empty stack still needs its one value, however long the formula is
      if depth + change ≤ 0 ∨ (length ≤ (count : Int) ∧ 0 < change ∧ 0 < depth) then
        randomCmds length fuel count depth made
      else
        randomCmds length fuel (count + 1) (depth + change) (cmd :: made)
    else
      return made.reverse

/-- The formula of a list of commands. -/
def beatOf (generated : Bool) (cmds : List Cmd) : Evolving σ Program :=
  match Program.compile cmds with
  | .ok program => return program
  | .error e => throw (.badBeat generated e)

/-- A random formula of at least `length` commands, if the loop of draws ends within `fuel` rounds. -/
def randomBeatWithin (fuel : Nat) (length : Int) : Evolving σ Program := do
  beatOf true (← randomCmds length fuel 0 0 [])

/-- A random formula of at least `length` commands. -/
def randomBeat [Host] (length : Int) : Evolving σ Program :=
  randomBeatWithin (Host.patience length) length

/-- A random command of the same family. Literals keep their kind. -/
def replaceCmd : Cmd → Evolving σ Cmd
  | .var _ => return .var (← drawFrom Variable.all)
  | .float _ => return .float (UInt64.ofNat (← drawBelow literalRange)).toFloat
  | .hex _ => return .hex (← drawBelow literalRange)
  | .int _ => return .int (← drawBelow literalRange)
  | .intOp _ => return .intOp (← drawFrom IntOp.all)
  | .trig _ => return .trig (← drawFrom TrigOp.all)
  | .floatOp _ => return .floatOp (← drawFrom FloatOp.all)
  | .compare _ => return .compare (← drawFrom CompareOp.all)
  | cmd => throw (.fixed cmd)

/-- Replace a command with probability `chance`. -/
def mutateCmd (chance : Float) (cmd : Cmd) : Evolving σ Cmd := do
  let x ← drawUnit
  if x < chance then replaceCmd cmd else return cmd

/-- Replace each command with probability `chance`. -/
def mutateBeat (program : Program) (chance : Float) : Evolving σ Program := do
  beatOf false (← program.cmds.mapM (mutateCmd chance))

end ProgramArt.Evolution
