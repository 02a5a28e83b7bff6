import ProgramArt.Index
import ProgramArt.Tape.Instr

/-!
# Tape programs

A program is a list of instructions whose loop brackets are balanced, together with the table that sends each bracket
to its partner. The table is computed once (`jumpTable`), when the program is built.
-/

namespace ProgramArt.Tape

/-! ## Balance -/

/-- The number of open brackets after `instrs`, starting from `depth` of them, or `none` as soon as a
bracket closes that was never opened. -/
def depthAfter? : Nat → List Instr → Option Nat
  | depth, [] => some depth
  | depth, .enter :: rest => depthAfter? (depth + 1) rest
  | 0, .leave :: _ => none
  | depth + 1, .leave :: rest => depthAfter? depth rest
  | depth, _ :: rest => depthAfter? depth rest

/-- Loop brackets never close more than they open and balance at the end. -/
def isBalanced (instrs : List Instr) : Bool :=
  depthAfter? 0 instrs == some 0

/-! ## The matching of the brackets -/

/-- A bracket without a partner, and where it stands. -/
inductive Mismatch where
  /-- A `]` that closes nothing. -/
  | closing (position : Nat)
  /-- A `[` that is never closed. -/
  | opening (position : Nat)
deriving DecidableEq

/-- The report of a bracket without a partner. -/
def Mismatch.message : Mismatch → String
  | closing position => s!"Unmatched ']' at position {position} (program was not validated)"
  | opening position => s!"Unmatched '[' at position {position} (program was not validated)"

/-- For each position of a program, the partner of the bracket that stands there. -/
abbrev JumpTable := Array (Option Nat)

/-- Enter the partners of the brackets in `instrs`, which starts at `position`, into a table in one pass; `pending` are
the positions of the brackets that are still open, innermost first. A bracket that opens is entered with the partner `0`
until the one that closes it is found. -/
def fillTable : (position : Nat) → (pending : List Nat) → JumpTable → List Instr → Except Mismatch JumpTable
  | _, [], table, [] => .ok table
  | _, start :: _, _, [] => .error (.opening start)
  | position, pending, table, .enter :: rest =>
    fillTable (position + 1) (position :: pending) (table.setIfInBounds position (some 0)) rest
  | position, [], _, .leave :: _ => .error (.closing position)
  | position, start :: pending, table, .leave :: rest =>
    fillTable (position + 1) pending
      ((table.setIfInBounds start (some position)).setIfInBounds position (some start)) rest
  | position, pending, table, _ :: rest => fillTable (position + 1) pending table rest

/-- The table that sends each bracket of `instrs` to its partner, or the `Mismatch` that `fillTable` finds. -/
def jumpTable (instrs : List Instr) : Except Mismatch JumpTable :=
  fillTable 0 [] (Array.replicate instrs.length none) instrs

/-- The entries of a table as pairs of a position and its partner, by position. -/
def JumpTable.entries (table : JumpTable) : List (Nat × Nat) :=
  table.toList.zipIdx.filterMap fun (partner, position) => partner.map (position, ·)

/-! ## Programs -/

/-- Why a list of instructions is not a program. -/
inductive ProgramError where
  /-- The loop brackets are not balanced. -/
  | unbalanced (instrs : List Instr)
  /-- A bracket has no partner. -/
  | unmatched (mismatch : Mismatch)
deriving DecidableEq

/-- The report of a list of instructions that is not a program. -/
def ProgramError.message : ProgramError → String
  | unbalanced instrs => s!"Unbalanced loop brackets in program: {spell instrs}"
  | unmatched mismatch => mismatch.message

/-- A balanced list of instructions with the partners of its brackets. -/
structure Program where
  /-- The instructions in order. -/
  instrs : Array Instr
  /-- The partner of each bracket. -/
  jumps : JumpTable
  /-- The table is the matching of the brackets, so the brackets are balanced. -/
  jumps_eq : jumpTable instrs.toList = .ok jumps

namespace Program

/-- Build a program from its instructions. -/
def ofInstrs (instrs : List Instr) : Except ProgramError Program :=
  if isBalanced instrs then
    match h : jumpTable instrs with
    | .ok jumps => .ok ⟨instrs.toArray, jumps, by simpa using h⟩
    | .error mismatch => .error (.unmatched mismatch)
  else
    .error (.unbalanced instrs)

/-- Build a program from its text. -/
def parse (text : String) : Except ProgramError Program :=
  ofInstrs (read text)

/-- The number of instructions. -/
def size (program : Program) : Nat :=
  program.instrs.size

/-- The text of a program. -/
def text (program : Program) : String :=
  spell program.instrs.toList

/-- The instruction at a position, counted from either end. -/
def get? (program : Program) (position : Int) : Option Instr :=
  (Index.resolve program.instrs.size position).map fun i => program.instrs[i]

/-- Where the partner of the bracket at `position` is, by `jumps`. There is none at a position before the front,
which `get?` counts from the end. -/
def partner? (program : Program) (position : Int) : Option Nat :=
  if 0 ≤ position then (program.jumps[position.toNat]?).join else none

/-- Two programs are the same when their instructions are. -/
def same (p q : Program) : Bool :=
  p.instrs == q.instrs

end Program

end ProgramArt.Tape
