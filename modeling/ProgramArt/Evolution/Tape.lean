import ProgramArt.Evolution.Basic
import ProgramArt.Host

/-!
# Evolving tape programs

A random tape program is drawn instruction by instruction (`randomInstrs`). Once it is long enough only closing
brackets are added, one for each draw, until all loops are closed. A mutation replaces instructions one by one and
leaves the loop brackets alone (`mutateInstr`).
-/

namespace ProgramArt.Evolution

open ProgramArt.Tape

/-- Instructions of random programs that neither read nor write. -/
def plainInstrs : List Instr := [.inc, .dec, .left, .right, .enter, .leave]

/-- Instructions of random programs that may read and write. -/
def allInstrs : List Instr := plainInstrs ++ [.read, .write]

/-- What the instructions of a random program are drawn from. -/
def tapeChoices (io : Bool) : List Instr :=
  if io then allInstrs else plainInstrs

/-- Instructions that may take the place of another: all but the brackets. -/
def mutableInstrs : List Instr := [.inc, .dec, .left, .right, .read, .write]

variable {σ : Type} [Draw.Source σ]

/-- The number of open brackets after one more instruction. -/
def openAfter (depth : Nat) : Instr → Nat
  | .enter => depth + 1
  | .leave => depth - 1
  | _ => depth

/-- Draw the instructions that follow the `count` already made, of which `depth` brackets are open. A
closing bracket that closes nothing is drawn again. -/
def randomInstrs (choices : List Instr) (length : Int) :
    (fuel : Nat) → (count depth : Nat) → (made : List Instr) → Evolving σ (List Instr)
  | 0, _, _, _ => throw .stalled
  | fuel + 1, count, depth, made =>
    if (count : Int) < length ∨ depth ≠ 0 then do
      let drawn ← drawFrom choices
      if depth = 0 ∧ drawn = .leave then
        randomInstrs choices length fuel count depth made
      else
        let instr := if length ≤ (count : Int) then .leave else drawn
        randomInstrs choices length fuel (count + 1) (openAfter depth instr) (instr :: made)
    else
      return made.reverse ++ List.replicate depth .leave

/-- The program of a list of instructions. -/
def tapeOf (instrs : List Instr) : Evolving σ Program :=
  match Program.ofInstrs instrs with
  | .ok program => return program
  | .error e => throw (.badTape e)

/-- A random program of at least `length` instructions, if the loop of draws ends within `fuel` rounds. What was drawn
is checked before it is made a program of. -/
def randomTapeWithin (fuel : Nat) (length : Int) (io : Bool) : Evolving σ Program := do
  let instrs ← randomInstrs (tapeChoices io) length fuel 0 0 []
  if isBalanced instrs then tapeOf instrs else throw (.unbalanced instrs)

/-- A random program of at least `length` instructions. -/
def randomTape [Host] (length : Int) (io : Bool) : Evolving σ Program :=
  randomTapeWithin (Host.patience length) length io

/-- Replace an instruction with probability `chance`, unless it is a bracket. -/
def mutateInstr (chance : Float) (instr : Instr) : Evolving σ Instr := do
  let x ← drawUnit
  if x < chance ∧ instr.isBracket = false then drawFrom mutableInstrs else return instr

/-- Replace each instruction other than a bracket with probability `chance`. -/
def mutateTape (program : Program) (chance : Float) : Evolving σ Program := do
  tapeOf (← program.instrs.toList.mapM (mutateInstr chance))

end ProgramArt.Evolution
