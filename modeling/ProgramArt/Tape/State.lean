import ProgramArt.Host
import ProgramArt.Number.Word64
import ProgramArt.Tape.Input
import ProgramArt.Tape.Program

/-!
# The tape machine

A machine state is a program pointer, a memory pointer, a tape of cells, a pointer policy and the output so far. One
`step` executes one instruction.

Both pointers are integers, so that a state can be placed anywhere: a memory pointer is looked up from either end of
the tape, and one that names no cell makes the step fail. A step that fails leaves the state as it was, but for one
that moves off a tape which cannot grow: the pointer has been moved then.
-/

namespace ProgramArt.Tape

/-- What happens when the memory pointer leaves the tape. -/
inductive Policy where
  /-- The tape is a ring of `modulus` cells. -/
  | ring (modulus : Int)
  /-- The pointer stops at the left end, and the tape grows by `chunk` cells at the right end. -/
  | grow (chunk : Int)
deriving DecidableEq

/-- Cells of a tape that does not fix its own size. -/
def initialCells : Nat := 256

/-- Unless told otherwise the tape is a ring. -/
def Policy.default : Policy := .ring 256

/-- Why so many cells cannot be had. -/
inductive RoomError where
  /-- Their number is no word. -/
  | uncountable
  /-- There is no room for them. -/
  | noRoom
deriving DecidableEq

/-- The number of new cells when so many are asked for. Less than none are none. -/
def cellCount [Host] (count : Int) : Except RoomError Nat :=
  if count < Word64.minValue ∨ Word64.maxValue < count then .error .uncountable
  else if Host.roomBound ≤ count then .error .noRoom
  else .ok count.toNat

/-- Why a policy has no fresh tape. -/
inductive StartError where
  /-- A ring needs at least one cell. -/
  | emptyRing
  /-- The cells of the ring cannot be had. -/
  | room (error : RoomError)
deriving DecidableEq

/-- The report of a policy that has no fresh tape, where it has a text of its own. -/
def StartError.message? : StartError → Option String
  | emptyRing => some "Wrapping modulus must be positive"
  | room _ => none

/-- Wrap a number into a signed byte. -/
def wrapCell (n : Int) : Int := (n + 128) % 256 - 128

/-- What can stand in the cells of a tape. Programs are run on signed bytes. A tape that is put together by
hand can hold any whole numbers; what a program stores in it is wrapped by `wrapCell` all the same. -/
class Cell (α : Type) where
  /-- What stands in a new cell, and ends a loop. -/
  zero : α
  /-- The number that stands in a cell. -/
  toInt : α → Int
  /-- A cell for a number, which is wrapped by `wrapCell`. -/
  ofInt : Int → α

namespace Cell

instance : Cell Int := ⟨0, id, wrapCell⟩

@[default_instance]
instance : Cell Int8 := ⟨0, Int8.toInt, fun n => Int8.ofInt (wrapCell n)⟩

/-- One more, wrapped. -/
def succ {α : Type} [Cell α] (cell : α) : α := ofInt (toInt cell + 1)

/-- One less, wrapped. -/
def pred {α : Type} [Cell α] (cell : α) : α := ofInt (toInt cell - 1)

end Cell

/-- The state of one execution. -/
structure State (α : Type := Int8) where
  /-- Position of the next instruction. -/
  pc : Int := 0
  /-- Position of the cell that instructions act on. -/
  ptr : Int := 0
  /-- The tape. -/
  cells : Array α
  /-- What happens at the ends of the tape. -/
  policy : Policy
  /-- The values written so far, oldest first. -/
  output : Array α := #[]
deriving DecidableEq

variable [Host] {α : Type}

namespace State

/-- The number of cells of a fresh tape. -/
def freshSize : Policy → Nat
  | .ring modulus => modulus.toNat
  | .grow _ => initialCells

/-- A zeroed tape of the size that the policy asks for. -/
def blank [Cell α] (policy : Policy) : State α :=
  { cells := Array.replicate (freshSize policy) Cell.zero, policy }

/-- A zeroed tape for a policy that has one. -/
def fresh [Cell α] (policy : Policy) : Except StartError (State α) :=
  match policy with
  | .ring modulus =>
    if modulus ≤ 0 then .error .emptyRing
    else
      match cellCount modulus with
      | .error e => .error (.room e)
      | .ok _ => .ok (blank policy)
  | .grow _ => .ok (blank policy)

/-- The program pointer is past the last instruction. -/
def halted (state : State α) (program : Program) : Bool :=
  decide ((program.size : Int) ≤ state.pc)

/-- The instruction about to run; `none` once the machine has halted. -/
def current? (state : State α) (program : Program) : Option Instr :=
  if state.halted program then none else program.get? state.pc

/-- The output as unsigned bytes. -/
def outputBytes [Cell α] (state : State α) : List UInt8 :=
  state.output.toList.map fun cell => UInt8.ofNat (Cell.toInt cell % 256).toNat

/-- The cell under the pointer. -/
def cell? (state : State α) : Option α :=
  (Index.resolve state.cells.size state.ptr).map fun i => state.cells[i]

/-- Replace the cell under the pointer. -/
def setCell? (state : State α) (value : α) : Option (State α) :=
  match Index.resolve state.cells.size state.ptr with
  | some i => some { state with cells := state.cells.set i value }
  | none => none

/-- Add so many cells at the right end. -/
def extend [Cell α] (state : State α) (count : Nat) : State α :=
  { state with cells := state.cells ++ Array.replicate count (Cell.zero : α) }

end State

/-- Why a step fails. -/
inductive StepError where
  /-- The machine has halted. -/
  | halted
  /-- No instruction stands at the program pointer. -/
  | missingInstr
  /-- The memory pointer names no cell. -/
  | missingCell
  /-- The bracket at the program pointer has no partner. -/
  | missingJump (pc : Int)
  /-- A ring without cells has no place for the pointer. -/
  | emptyRing
  /-- The cells that the tape should grow by cannot be had. -/
  | room (error : RoomError)
deriving DecidableEq

/-- The report of a failed step, where it has a text of its own. -/
def StepError.message? : StepError → Option String
  | halted => some "step() called on a halted state"
  | missingInstr => none
  | missingCell => none
  | missingJump pc => some s!"Missing jump table entry at position {pc}"
  | emptyRing => none
  | room _ => none

/-- A step that fails: why, and the state that it leaves. -/
structure Fault (α : Type := Int8) where
  error : StepError
  state : State α
deriving DecidableEq

namespace State

/-- Store a value in the cell under the pointer. -/
def store (state : State α) (value : α) : Except (Fault α) (State α) :=
  match state.setCell? value with
  | some state => .ok state
  | none => .error ⟨.missingCell, state⟩

/-- The cell under the pointer, which has to exist. -/
def load (state : State α) : Except (Fault α) α :=
  match state.cell? with
  | some value => .ok value
  | none => .error ⟨.missingCell, state⟩

/-- Continue at the partner of the bracket under the program pointer. -/
def jump (state : State α) (program : Program) : Except (Fault α) (State α) :=
  match program.partner? state.pc with
  | some target => .ok { state with pc := target }
  | none => .error ⟨.missingJump state.pc, state⟩

/-- Put the pointer at a place of a ring. The places are counted from zero towards the modulus, on whichever
side of zero that is. -/
def turnTo (state : State α) (modulus place : Int) : Except (Fault α) (State α) :=
  if modulus = 0 then .error ⟨.emptyRing, state⟩ else .ok { state with ptr := place.fmod modulus }

/-- Move the pointer one place to the left. -/
def moveLeft (state : State α) : Except (Fault α) (State α) :=
  match state.policy with
  | .ring modulus => state.turnTo modulus (state.ptr - 1)
  | .grow _ => .ok { state with ptr := max 0 (state.ptr - 1) }

variable [Cell α]

/-- Move the pointer one place to the right; a growing tape is extended when the pointer leaves it. -/
def moveRight (state : State α) : Except (Fault α) (State α) :=
  match state.policy with
  | .ring modulus => state.turnTo modulus (state.ptr + 1)
  | .grow chunk =>
    let moved := { state with ptr := state.ptr + 1 }
    if (moved.cells.size : Int) ≤ moved.ptr then
      match cellCount chunk with
      | .ok count => .ok (moved.extend count)
      | .error e => .error ⟨.room e, moved⟩
    else .ok moved

/-- What an instruction does to the state, the program pointer's own advance apart. An input
instruction is handed the value it reads. -/
def execute [DecidableEq α] (state : State α) (program : Program) (value : Option Int) :
    Instr → Except (Fault α) (State α)
  | .inc => do state.store (Cell.succ (← state.load))
  | .dec => do state.store (Cell.pred (← state.load))
  | .left => state.moveLeft
  | .right => state.moveRight
  | .enter => do if (← state.load) = Cell.zero then state.jump program else .ok state
  | .leave => do if (← state.load) = Cell.zero then .ok state else state.jump program
  | .read => state.store (Cell.ofInt (value.getD 0))
  | .write => do
    let value ← state.load
    .ok { state with output := state.output.push value }

/-- Move on to the next instruction. -/
def advance (state : State α) : State α :=
  { state with pc := state.pc + 1 }

end State

/-- Execute one instruction. The input that is left is returned also when the step fails: a value
that was read for a missing cell is gone. -/
def step [Cell α] [DecidableEq α] {σ : Type} [Source σ] (program : Program) (state : State α) (input : σ) :
    Except (Fault α) (State α) × σ :=
  if state.halted program then
    (.error ⟨.halted, state⟩, input)
  else
    match program.get? state.pc with
    | none => (.error ⟨.missingInstr, state⟩, input)
    | some .read =>
      let (value, rest) := Source.next input
      ((state.execute program value .read).map State.advance, rest)
    | some instr => ((state.execute program none instr).map State.advance, input)

end ProgramArt.Tape
