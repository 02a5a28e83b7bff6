/-!
# Tape instructions

The tape language has eight instructions, each spelled by one character. Every other character of a program text is a
comment.
-/

namespace ProgramArt.Tape

/-- The instructions of the tape language. -/
inductive Instr where
  /-- `+`: add one to the cell under the pointer. -/
  | inc
  /-- `-`: take one from the cell under the pointer. -/
  | dec
  /-- `<`: move the pointer to the left. -/
  | left
  /-- `>`: move the pointer to the right. -/
  | right
  /-- `[`: skip the loop when the cell under the pointer is zero. -/
  | enter
  /-- `]`: repeat the loop while the cell under the pointer is not zero. -/
  | leave
  /-- `,`: read one input value into the cell under the pointer. -/
  | read
  /-- `.`: append the cell under the pointer to the output. -/
  | write
deriving DecidableEq, Inhabited

namespace Instr

/-- The character that spells an instruction. -/
def toChar : Instr → Char
  | inc => '+'
  | dec => '-'
  | left => '<'
  | right => '>'
  | enter => '['
  | leave => ']'
  | read => ','
  | write => '.'

/-- The instruction a character spells, if it spells one. -/
def ofChar? : Char → Option Instr
  | '+' => some inc
  | '-' => some dec
  | '<' => some left
  | '>' => some right
  | '[' => some enter
  | ']' => some leave
  | ',' => some read
  | '.' => some write
  | _ => none

/-- Loop brackets shape a program; the other instructions act on the tape. -/
def isBracket : Instr → Bool
  | enter | leave => true
  | _ => false

@[simp] theorem ofChar?_toChar (i : Instr) : ofChar? i.toChar = some i := by
  cases i <;> rfl

end Instr

/-- The text of a list of instructions. -/
def spell (instrs : List Instr) : String :=
  String.ofList (instrs.map Instr.toChar)

/-- The instructions of a text, comments left out. -/
def read (text : String) : List Instr :=
  text.toList.filterMap Instr.ofChar?

@[simp] theorem read_spell (instrs : List Instr) : read (spell instrs) = instrs := by
  rw [read, spell, String.toList_ofList]
  induction instrs with
  | nil => rfl
  | cons i rest ih => rw [List.map_cons, List.filterMap_cons, Instr.ofChar?_toChar, ih]

end ProgramArt.Tape
