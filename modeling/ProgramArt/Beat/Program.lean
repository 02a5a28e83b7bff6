import ProgramArt.Beat.Command

/-!
# Formulas

A formula is a list of commands that never takes more from the stack than is there and leaves something on it. This is
checked once, by following the height of the stack (`heightFrom`), when `Program.compile` makes the formula. Its
`Metadata` are the values that remarks give to keys.
-/

namespace ProgramArt.Beat

/-- The command that finds too little on the stack, and the height it finds. -/
structure Shortage where
  index : Nat
  height : Int
deriving DecidableEq

/-- The height of the stack after `cmds`, the first of which has number `index` and finds `height`
values. A command that leaves nothing is refused. -/
def heightFrom : (index : Nat) → (height : Int) → List Cmd → Except Shortage Int
  | _, height, [] => .ok height
  | index, height, cmd :: rest =>
    match cmd.effect with
    | none => heightFrom (index + 1) height rest
    | some change =>
      if height + change ≤ 0 then .error ⟨index, height⟩
      else heightFrom (index + 1) (height + change) rest

/-- Why a list of commands is not a formula. -/
inductive CompileError where
  /-- A command finds too little on the stack. -/
  | underflow (cmds : List Cmd) (shortage : Shortage)
  /-- There are only remarks. -/
  | empty (cmds : List Cmd)
deriving DecidableEq

/-- The commands that were refused. -/
def CompileError.cmds : CompileError → List Cmd
  | underflow cmds _ => cmds
  | empty cmds => cmds

/-- The report of a list of commands that is not a formula. -/
def CompileError.message [Host] : CompileError → String
  | underflow cmds ⟨index, height⟩ =>
    let instruction := (cmds[index]?).elim "" Cmd.text
    s!"Attempt to pop beyond stack size. instruction: {instruction} index: {index}, " ++
      s!"size of stack {height}"
  | empty cmds => s!"Program is empty: {Text.quotedCodes (codesOf cmds)}"

/-- Keys with the values that remarks have given to them, both in the order in which they came. -/
abbrev Metadata := List (Text.Codes × List Text.Codes)

namespace Metadata

/-- Give one more value to a key, which is new if it has none. -/
def add : Metadata → (key value : Text.Codes) → Metadata
  | [], key, value => [(key, [value])]
  | (other, values) :: rest, key, value =>
    if other == key then (other, values ++ [value]) :: rest else (other, values) :: add rest key value

/-- Take note of what a command says, if it is a remark. -/
def note (metadata : Metadata) : Cmd → Metadata
  | .remark key value => metadata.add key value
  | _ => metadata

/-- The values that the remarks among commands give to keys. -/
def ofCmds (cmds : List Cmd) : Metadata :=
  cmds.foldl note []

end Metadata

/-- A list of commands with its height checked. -/
structure Program where
  /-- The commands in order. -/
  cmds : List Cmd
  /-- The height of the stack after the last command. -/
  height : Int
  /-- No command finds too little on the stack. -/
  height_eq : heightFrom 0 0 cmds = .ok height
  /-- Something is left. -/
  height_ne : height ≠ 0
deriving DecidableEq

namespace Program

/-- Check a list of commands. -/
def compile (cmds : List Cmd) : Except CompileError Program :=
  match h : heightFrom 0 0 cmds with
  | .error shortage => .error (.underflow cmds shortage)
  | .ok height => if h' : height = 0 then .error (.empty cmds) else .ok ⟨cmds, height, h, h'⟩

/-- The text of a formula, by its code points. -/
def codes [Host] (program : Program) : Text.Codes :=
  codesOf program.cmds

/-- The text of a formula. -/
def text [Host] (program : Program) : String :=
  textOf program.cmds

/-- The values that remarks give to keys. -/
def metadata (program : Program) : Metadata :=
  .ofCmds program.cmds

/-- The values that remarks give to a key, in order. -/
def remarks (program : Program) (key : Text.Codes) : List Text.Codes :=
  (program.metadata.lookup key).getD []

/-- The last value that a remark gives to a key. -/
def remark? (program : Program) (key : Text.Codes) : Option Text.Codes :=
  (program.remarks key).getLast?

/-- The keys of the remarks, in the order in which they first occur. -/
def remarkKeys (program : Program) : List Text.Codes :=
  program.metadata.map Prod.fst

end Program

end ProgramArt.Beat
