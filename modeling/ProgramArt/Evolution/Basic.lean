import ProgramArt.Beat.Program
import ProgramArt.Draw.Source
import ProgramArt.Tape.Program

/-!
# Failures of evolution

Programs are generated at random and mutated by draws from a source. An `EvolutionError` says what can go wrong.
-/

namespace ProgramArt.Evolution

/-- Why a generation or a mutation fails. -/
inductive EvolutionError where
  /-- The source has run dry. -/
  | exhausted (source : Draw.Exhausted)
  /-- No program was completed within the rounds of draws that `Host.patience` allows. -/
  | stalled
  /-- A command that has no family to be replaced from. -/
  | fixed (cmd : Beat.Cmd)
  /-- The instructions that were drawn have loop brackets that are not balanced. -/
  | unbalanced (instrs : List Tape.Instr)
  /-- The instructions are not a tape program. -/
  | badTape (error : Tape.ProgramError)
  /-- The commands are not a formula. -/
  | badBeat (generated : Bool) (error : Beat.CompileError)
deriving DecidableEq

/-- The report of a failed generation or mutation. -/
def EvolutionError.message [Host] : EvolutionError → String
  | exhausted source => source.message
  | stalled => "No program was completed within the allowed number of draws"
  | fixed cmd => s!"Cannot mutate bytebeat command {cmd.text}"
  | unbalanced instrs => s!"Generated an invalid program: {Tape.spell instrs}"
  | badTape error => error.message
  | badBeat true error => s!"Generated an invalid bytebeat: {error.message}"
  | badBeat false error => s!"Mutation produced an invalid bytebeat: {error.message}"

/-- Computations that draw from a source and evolve programs. -/
abbrev Evolving (σ α : Type) := Draw.Draws EvolutionError σ α

variable {σ α : Type} [Draw.Source σ]

/-- Draw a number in the unit interval. -/
def drawUnit : Evolving σ Float := Draw.Draws.unit .exhausted

/-- Draw a whole number less than a bound. -/
def drawBelow (bound : Nat) : Evolving σ Nat := Draw.Draws.below .exhausted bound

/-- Draw a member of a list. -/
def drawFrom [Inhabited α] (choices : List α) : Evolving σ α := Draw.Draws.pick .exhausted choices

end ProgramArt.Evolution
