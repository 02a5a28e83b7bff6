import ProgramArt.Beat.Value
import ProgramArt.Host

/-!
# Commands of formulas

A formula is a list of commands for a stack of values. Most commands push a value, or take operands and push a result;
two kinds of them are remarks with no effect. `Cmd.codes` is a command as a text, by its code points, and `Cmd.effect`
is by how much it raises or lowers the stack.
-/

namespace ProgramArt.Beat

/-- What a formula can ask about the pixel it is evaluated for. -/
inductive Variable where
  | frame
  | mouseX
  | mouseY
  | screenX
  | screenY
  | keyX
  | keyY
deriving DecidableEq, Inhabited

/-- The name of a variable. -/
def Variable.symbol : Variable → String
  | frame => "t"
  | mouseX => "mx"
  | mouseY => "my"
  | screenX => "sx"
  | screenY => "sy"
  | keyX => "kx"
  | keyY => "ky"

/-- All variables. -/
def Variable.all : List Variable := [frame, mouseX, mouseY, screenX, screenY, keyX, keyY]

/-- Operators on integers. -/
inductive IntOp where
  | add
  | sub
  | mul
  | div
  | mod
  | shl
  | shr
  | and
  | or
  | xor
deriving DecidableEq, Inhabited

/-- The symbol of an operator on integers. -/
def IntOp.symbol : IntOp → String
  | add => "+"
  | sub => "-"
  | mul => "*"
  | div => "/"
  | mod => "%"
  | shl => "<<"
  | shr => ">>"
  | and => "&"
  | or => "|"
  | xor => "^"

/-- All operators on integers. -/
def IntOp.all : List IntOp := [add, sub, mul, div, mod, shl, shr, and, or, xor]

/-- Functions of an angle. -/
inductive TrigOp where
  | sin
  | cos
  | tan
deriving DecidableEq, Inhabited

/-- The symbol of a function of an angle. -/
def TrigOp.symbol : TrigOp → String
  | sin => "sin"
  | cos => "cos"
  | tan => "tan"

/-- All functions of an angle. -/
def TrigOp.all : List TrigOp := [sin, cos, tan]

/-- Operators on doubles. -/
inductive FloatOp where
  | pow
  | add
  | sub
  | mul
  | div
  | mod
deriving DecidableEq, Inhabited

/-- The symbol of an operator on doubles. -/
def FloatOp.symbol : FloatOp → String
  | pow => "pow"
  | add => "+."
  | sub => "-."
  | mul => "*."
  | div => "/."
  | mod => "%."

/-- All operators on doubles. -/
def FloatOp.all : List FloatOp := [pow, add, sub, mul, div, mod]

/-- Comparisons. -/
inductive CompareOp where
  | lt
  | gt
  | le
  | ge
  | eq
  | ne
deriving DecidableEq, Inhabited

/-- The symbol of a comparison. -/
def CompareOp.symbol : CompareOp → String
  | lt => "<"
  | gt => ">"
  | le => "<="
  | ge => ">="
  | eq => "=="
  | ne => "!="

/-- All comparisons. -/
def CompareOp.all : List CompareOp := [lt, gt, le, ge, eq, ne]

/-- A command. -/
inductive Cmd where
  /-- Push a variable. -/
  | var (variable_ : Variable)
  /-- Push a double. -/
  | float (x : Float)
  /-- Push an integer. -/
  | int (n : Int)
  /-- Push an integer that is written in base sixteen. -/
  | hex (n : Int)
  /-- Combine two integers. -/
  | intOp (op : IntOp)
  /-- Apply a function of an angle. -/
  | trig (op : TrigOp)
  /-- Combine two doubles. -/
  | floatOp (op : FloatOp)
  /-- Compare two values; the result is one or zero. -/
  | compare (op : CompareOp)
  /-- Choose between two values by a third, which was pushed last. -/
  | choose
  /-- Choose one of `size` values by an index, which was pushed last. -/
  | array (size : Nat)
  /-- A remark of a key and a value. -/
  | remark (key value : Text.Codes)
  /-- A remark. -/
  | comment (text : Text.Codes)
deriving DecidableEq, Inhabited

namespace Cmd

/-- An integer in base sixteen, its sign behind the mark of the base. -/
def hexText (n : Int) : String :=
  let digits := String.ofList ((Nat.toDigits 16 n.natAbs).map Char.toUpper)
  if n < 0 then "0x-" ++ digits else "0x" ++ digits

/-- The text of a double: its positional notation, which is `Decimal.Digits.pointed`. -/
def floatText [Host] (x : Float) : String :=
  String.ofList (Decimal.Digits.pointed (Host.positional x))

/-- The symbol of a command that is nothing but a symbol. -/
def symbol? : Cmd → Option String
  | var v => some v.symbol
  | intOp op => some op.symbol
  | trig op => some op.symbol
  | floatOp op => some op.symbol
  | compare op => some op.symbol
  | choose => some "?"
  | _ => none

/-- The text of a command that is no remark. -/
def word? [Host] : Cmd → Option String
  | float x => some (floatText x)
  | int n => some (toString n)
  | hex n => some (hexText n)
  | array size => some ("[" ++ toString size)
  | cmd => cmd.symbol?

/-- The text of a command, by its code points. -/
def codes [Host] : Cmd → Text.Codes
  | remark key value => '!'.toNat :: key ++ ':'.toNat :: value
  | comment text => '#'.toNat :: text
  | cmd => Text.codesOf (cmd.word?.getD "")

/-- The text of a command. -/
def text [Host] (cmd : Cmd) : String :=
  cmd.word?.getD (Text.ofCodes cmd.codes)

/-- How many values a command takes from the stack. An array of no values does not take its index. -/
def takes : Cmd → Nat
  | var _ | float _ | int _ | hex _ => 0
  | trig _ => 1
  | intOp _ | floatOp _ | compare _ => 2
  | choose => 3
  | array 0 => 0
  | array (others + 1) => others + 2
  | remark _ _ | comment _ => 0

/-- By how much a command changes the height of the stack; a remark is not counted. -/
def effect : Cmd → Option Int
  | var _ | float _ | int _ | hex _ => some 1
  | trig _ => some 0
  | intOp _ | floatOp _ | compare _ => some (-1)
  | choose => some (-2)
  | array size => some (-(size : Int))
  | remark _ _ | comment _ => none

end Cmd

/-- The text of a list of commands, by its code points. -/
def codesOf [Host] (cmds : List Cmd) : Text.Codes :=
  [' '.toNat].intercalate (cmds.map Cmd.codes)

/-- The text of a list of commands. -/
def textOf [Host] (cmds : List Cmd) : String :=
  Text.ofCodes (codesOf cmds)

end ProgramArt.Beat
