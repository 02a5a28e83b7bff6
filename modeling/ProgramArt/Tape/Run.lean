import ProgramArt.Tape.State

/-!
# Running tape programs

A run steps a state until it halts, fails or has used up its budget of steps. Running and recording agree: a `history`
is the list of states that a `run` passes through.
-/

namespace ProgramArt.Tape

variable [Host] {α σ : Type} [Cell α] [DecidableEq α] [Source σ]

/-- Where a run ends. -/
structure Outcome (σ : Type) (α : Type := Int8) where
  /-- The last state that was reached, or the one that a failing step left. -/
  state : State α
  /-- The input that is left. -/
  input : σ
  /-- The number of steps taken. -/
  steps : Nat
  /-- The failure that ended the run, if one did. -/
  fault : Option StepError

/-- Step at most `budget` times, stopping at a halt, after `taken` earlier steps. -/
def runFrom (program : Program) (taken : Nat) : (budget : Nat) → State α → σ → Outcome σ α
  | 0, state, input => ⟨state, input, taken, none⟩
  | budget + 1, state, input =>
    if state.halted program then
      ⟨state, input, taken, none⟩
    else
      match step program state input with
      | (.ok next, rest) => runFrom program (taken + 1) budget next rest
      | (.error fault, rest) => ⟨fault.state, rest, taken, some fault.error⟩

/-- Step at most `budget` times, stopping at a halt. -/
def run (program : Program) (budget : Nat) (state : State α) (input : σ) : Outcome σ α :=
  runFrom program 0 budget state input

/-- Why a run from a fresh tape has no last state. -/
inductive RunError where
  /-- There is no fresh tape. -/
  | start (error : StartError)
  /-- A step fails. -/
  | step (error : StepError)
deriving DecidableEq

/-- The last state of a run, or the failure that ended it. -/
def Outcome.result (outcome : Outcome σ α) : Except RunError (State α) :=
  match outcome.fault with
  | none => .ok outcome.state
  | some e => .error (.step e)

end ProgramArt.Tape
