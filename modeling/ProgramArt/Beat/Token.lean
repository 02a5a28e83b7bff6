import ProgramArt.Beat.Program
import ProgramArt.Decimal.Typed

/-!
# The text of formulas

A formula is written as words, one for each command. A word is a variable, the symbol of an operator, an array `[n`, a
remark `!key:value` or `#text`, or a literal: `0x` and digits of base sixteen, a decimal number with a point, or an
integer. Integers lie in the range of words. `Cmd.ofToken` reads a word, and `Program.ofText` the formula of a text.
-/

namespace ProgramArt.Beat

/-- Why a text is not a list of commands. -/
inductive ParseError where
  /-- A word that starts like an array and is none. -/
  | badArray (token : Text.Codes) (position : Nat)
  /-- A word that is no command. -/
  | unknown (token : Text.Codes) (position : Nat)
  /-- A decimal numeral with more digits than are read. -/
  | tooLong (digits : Nat)
deriving DecidableEq

/-- The report of a text that is not a list of commands, where it has a text of its own. -/
def ParseError.message? : ParseError → Option String
  | badArray token position => some s!"Bad Array op: {Text.ofCodes token}, index: {position}"
  | unknown token position => some s!"Unknown Token: {Text.ofCodes token}, index: {position}"
  | tooLong _ => none

/-- The commands that a symbol alone stands for. -/
def symbolCmds : List Cmd :=
  Variable.all.map Cmd.var ++ IntOp.all.map Cmd.intOp ++ TrigOp.all.map Cmd.trig ++
    FloatOp.all.map Cmd.floatOp ++ CompareOp.all.map Cmd.compare ++ [Cmd.choose]

/-- The command of a symbol. -/
def Cmd.ofSymbol? (token : String) : Option Cmd :=
  symbolCmds.find? fun cmd => cmd.symbol? == some token

/-- An integer is a word. -/
def inRange (n : Int) : Bool :=
  decide (Word64.minValue ≤ n ∧ n ≤ Word64.maxValue)

/-- A decimal numeral, which must not be too long. -/
def decimal? (digits : List Char) : Except ParseError (Option Nat) :=
  match Decimal.natural? 10 digits with
  | none => .ok none
  | some n =>
    if Decimal.maxDigits < digits.length then .error (.tooLong digits.length) else .ok (some n)

/-- The size of an array: an optional plus sign and digits. -/
def sizeDigits : List Char → List Char
  | '+' :: rest => rest
  | rest => rest

/-- The remark that a word behind its mark is: a key and the value after the first colon, up to a second
one. -/
def remarkOf (word : Text.Codes) : Cmd :=
  let isColon (code : Nat) : Bool := code == ':'.toNat
  let value := (word.dropWhile (!isColon ·)).drop 1
  .remark (word.takeWhile (!isColon ·)) (value.takeWhile (!isColon ·))

/-- The command of the word at a position. -/
def Cmd.ofToken (position : Nat) (token : Text.Codes) : Except ParseError Cmd :=
  let chars := token.map Text.charOf
  match Cmd.ofSymbol? (String.ofList chars) with
  | some cmd => .ok cmd
  | none =>
    match chars with
    | '[' :: size => do
      match ← decimal? (sizeDigits size) with
      | some n => .ok (.array n)
      | none => .error (.badArray token position)
    | '#' :: _ => .ok (.comment (token.drop 1))
    | '0' :: 'x' :: digits =>
      match (Decimal.integer? 16 digits).filter inRange with
      | some n => .ok (.hex n)
      | none => .error (.unknown token position)
    | _ =>
      if chars.head? == some '!' && chars.contains ':' then .ok (remarkOf (token.drop 1))
      else if chars.contains '.' then
        match Decimal.number? chars with
        | some number => .ok (.float number.toFloat)
        | none => .error (.unknown token position)
      else do
        let (negative, digits) := Decimal.splitSign chars
        match ((← decimal? digits).map (Decimal.signed negative)).filter inRange with
        | some n => .ok (.int n)
        | none => .error (.unknown token position)

/-- The commands of a text. -/
def parse (text : Text.Codes) : Except ParseError (List Cmd) :=
  (Text.words text).zipIdx.mapM fun (token, position) => Cmd.ofToken position token

/-- Why a text is not a formula. -/
inductive TextError where
  | parse (error : ParseError)
  | compile (error : CompileError)
deriving DecidableEq

/-- The formula of a text. -/
def Program.ofText (text : Text.Codes) : Except TextError Program :=
  match Beat.parse text with
  | .error error => .error (.parse error)
  | .ok cmds =>
    match Program.compile cmds with
    | .error error => .error (.compile error)
    | .ok program => .ok program

end ProgramArt.Beat
