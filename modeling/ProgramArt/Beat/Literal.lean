import ProgramArt.Beat.Command
import ProgramArt.Decimal.Typed

/-!
# Commands built from data

A literal can be given as a datum instead of a word. An integer literal drops the fraction of a double, and then may
lie outside the range of words.
-/

namespace ProgramArt.Beat

/-- Why a datum is no literal. -/
inductive LiteralError where
  /-- NaN has no integer part. -/
  | nan
  /-- An infinity has no integer part, and some integers no double. -/
  | tooLarge
  /-- The datum is no number. -/
  | notNumber
  /-- The datum is a text, but no numeral. -/
  | notNumeral
  /-- An array has at least no values. -/
  | negativeSize
deriving DecidableEq

/-- The report of a datum that is no literal, where it has a text of its own. -/
def LiteralError.message? : LiteralError → Option String
  | negativeSize => some "Array size must be non-negative"
  | _ => none

/-- The integer part of a datum. A text is read as a whole number. -/
def integerOf : Datum → Except LiteralError Int
  | .bool value => .ok (if value then 1 else 0)
  | .int n => .ok n
  | .float x =>
    match Binary64.truncate x with
    | some n => .ok n
    | none => .error (if x.isNaN then .nan else .tooLarge)
  | .nan _ => .error .nan
  | .str text =>
    match Decimal.typedWhole? text with
    | some n => .ok n
    | none => .error .notNumeral
  | _ => .error .notNumber

/-- An integer literal. -/
def Cmd.intOf (datum : Datum) : Except LiteralError Cmd :=
  (integerOf datum).map Cmd.int

/-- An integer literal that is written in base sixteen. -/
def Cmd.hexOf (datum : Datum) : Except LiteralError Cmd :=
  (integerOf datum).map Cmd.hex

/-- A double literal. -/
def Cmd.floatOf : Datum → Except LiteralError Cmd
  | .float x => .ok (.float x)
  | .nan _ => .ok (.float Binary64.nan)
  | .str text =>
    match Decimal.typedNumber? text with
    | some x => .ok (.float x)
    | none => .error .notNumeral
  | datum => do
    match Binary64.ofInt? (← integerOf datum) with
    | some x => .ok (.float x)
    | none => .error .tooLarge

/-- An array of the given size. -/
def Cmd.arrayOf (datum : Datum) : Except LiteralError Cmd := do
  let negative := match datum with
    | .float x => decide (x < 0.0)
    | .int n => decide (n < 0)
    | _ => false
  if negative then .error .negativeSize
  else
    match datum with
    | .str _ => .error .notNumber
    | datum => return .array (← integerOf datum).toNat

end ProgramArt.Beat
