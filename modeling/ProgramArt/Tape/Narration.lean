import ProgramArt.Tape.Run
import ProgramArt.Text.Aligned
import ProgramArt.Text.Quoted

/-!
# Narrated runs of tape programs

A narrated run tells what happens step by step: the program with the next instruction marked, a `Window` of the tape
around the pointer, and the output so far.
-/

namespace ProgramArt.Tape

/-! ## The window -/

/-- The cells from `first` up to `last`, which is left out. -/
structure Window where
  first : Int
  last : Int
deriving DecidableEq

/-- The window of `range` cells around a pointer on a tape of `size` cells. The pointer stands in the
middle, unless the tape ends before. -/
def window (size : Nat) (ptr range : Int) : Window :=
  let first := max 0 (ptr - Int.fdiv range 2)
  let last := min (size : Int) (first + range)
  if last - first < range then ⟨max 0 (last - range), last⟩ else ⟨first, last⟩

/-- The addresses in a window. -/
def Window.addresses (w : Window) : List Int :=
  (List.range (w.last - w.first).toNat).map fun (i : Nat) => w.first + (i : Int)

/-! ## Words -/

/-- The program with brackets around the next instruction, and a mark at the end once it has halted. -/
def markedProgram (program : Program) (state : State) : String :=
  let pieces := program.instrs.toList.zipIdx.map fun (instr, i) =>
    let c := instr.toChar.toString
    if (i : Int) = state.pc then "[" ++ c ++ "]" else c
  String.join pieces ++ (if state.halted program then "[END]" else "")

/-- A list of output values. -/
def outputText (output : Array Int8) : String :=
  Text.bracketed (output.toList.map fun v => toString v.toInt)

/-- A state in words. -/
def stateLines (program : Program) (range : Int) (state : State) (label : String) : List String :=
  let addresses := (window state.cells.size state.ptr range).addresses
  let value (i : Int) : String := Text.padLeft 4 (toString (state.cells.getD i.toNat 0).toInt)
  let pointer (i : Int) : String := if i = state.ptr then "  ^ " else "    "
  let address (i : Int) : String := Text.padLeft 4 (toString i)
  [ s!"\n{label}:",
    s!"Program:  {markedProgram program state}",
    "Memory:   [" ++ String.intercalate "|" (addresses.map value) ++ "]",
    "Pointer:   " ++ String.intercalate " " (addresses.map pointer),
    "Address:   " ++ String.intercalate " " (addresses.map address),
    if state.output.isEmpty then "Output:   (empty)" else s!"Output:   {outputText state.output}" ]

/-- What a step from `position` that led to `state` did. -/
def describe (instr : Instr) (position : Int) (state : State) : String :=
  let ptr := state.ptr
  let cell := (state.cell?.getD 0).toInt
  match instr with
  | .left | .right => s!"Move pointer → position {ptr}"
  | .inc | .dec => s!"cell[{ptr}] → {cell}"
  | .read => s!"Read input → cell[{ptr}] = {cell}"
  | .write => s!"Output cell[{ptr}] = {cell}"
  | .enter | .leave =>
    if state.pc = position + 1 then "No jump" else s!"Jump to position {state.pc}"

/-! ## Narration -/

/-- A narrated run. -/
structure Narration where
  /-- What was told, message by message. -/
  lines : List String
  /-- Steps that were begun. -/
  steps : Nat
  /-- The last state. -/
  result : Except RunError State

variable [Host]

/-- Tell the steps of a run of at most `budget` more steps after `taken` of them. The messages told
so far are given newest first. -/
def narrateFrom (program : Program) (range : Int) :
    (budget taken : Nat) → State → Input → (told : List String) → Narration
  | 0, taken, state, _, told => ⟨told.reverse, taken, .ok state⟩
  | budget + 1, taken, state, input, told =>
    match state.current? program with
    | none => ⟨told.reverse, taken, .ok state⟩
    | some instr =>
      let count := taken + 1
      let told := s!"\nStep {count}: Execute '{instr.toChar}' at position {state.pc}" :: told
      match step program state input with
      | (.error fault, _) => ⟨told.reverse, count, .error (.step fault.error)⟩
      | (.ok next, rest) =>
        let told := s!"  {describe instr state.pc next}" :: told
        let told := (stateLines program range next s!"AFTER STEP {count}").reverse ++ told
        narrateFrom program range budget count next rest told

/-- Tell a run of a program from a fresh tape, on a text as input, for at most `budget` steps, which
messages call `limit`. -/
def narrate (program : Program) (policy : Policy) (range : Int) (text : String) (budget : Nat)
    (limit : String) : Narration :=
  let bytes := Text.bracketed (text.toUTF8.toList.map fun b => toString b.toNat)
  let header := [ "🐛 TAPE DEBUGGER", s!"Program: {program.text}",
    s!"Input: {Text.quoted text} (as bytes: {bytes})", String.ofList (List.replicate 80 '=') ]
  match State.fresh policy with
  | .error e => ⟨header, 0, .error (.start e)⟩
  | .ok state =>
    let told := (header ++ stateLines program range state "INITIAL").reverse
    let run := narrateFrom program range budget 0 state (Input.finite text) told
    match run.result with
    | .error _ => run
    | .ok last =>
      let stopped := if last.halted program then [] else
        [s!"\n⚠️ Execution stopped after {limit} steps (possible infinite loop)"]
      let final := ["\n🎯 FINAL RESULT:", s!"Output: {outputText last.output}"]
      { run with lines := run.lines ++ stopped ++ final }

end ProgramArt.Tape
