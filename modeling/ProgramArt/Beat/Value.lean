import ProgramArt.Datum.Basic
import ProgramArt.Number.Word64

/-!
# Values of formulas

A formula computes with integers and doubles. The two mix: an integer operator takes the integer view of its operands
(`Value.toInt`) and a floating operator their double view (`Value.toFloat`). An integer may be larger than a word,
when a literal is, and then it may have no double view.
-/

namespace ProgramArt.Beat

/-- Why an evaluation fails. -/
inductive EvalError where
  /-- A datum that is no number, by the name of its kind. -/
  | notNumber (type : String)
  /-- An integer beyond the largest double. -/
  | tooLarge
  /-- Fewer values on the stack than a command takes. -/
  | underflow
deriving DecidableEq

/-- The report of a failed evaluation, where it has a text of its own. -/
def EvalError.message? : EvalError → Option String
  | notNumber type => some s!"Cannot convert {type} to a bytebeat value"
  | tooLarge => none
  | underflow => none

/-- An integer or a double. -/
inductive Value where
  | int (n : Int)
  | float (x : Float)
deriving DecidableEq, Inhabited

namespace Value

/-- The value of a datum: integers are wrapped to words, and truth values count as one and zero. -/
def ofDatum : Datum → Except EvalError Value
  | .bool true => .ok (.int 1)
  | .bool false => .ok (.int 0)
  | .int n => .ok (.int (Word64.wrap n))
  | .float x => .ok (.float x)
  | .nan _ => .ok (.float Binary64.nan)
  | datum => .error (.notNumber datum.typeName)

/-- The number that a datum is, whatever its size. -/
def ofNumber? : Datum → Option Value
  | .bool value => some (.int (if value then 1 else 0))
  | .int n => some (.int n)
  | .float x => some (.float x)
  | .nan _ => some (.float Binary64.nan)
  | _ => none

/-- A value as a datum. -/
def toDatum : Value → Datum
  | int n => .int n
  | float x => .float x

/-- Everything but zero is true. -/
def isTrue : Value → Bool
  | int n => n != 0
  | float x => x != 0.0

/-- The integer view: a double loses its fraction and is clamped to the range of words; NaN is zero. -/
def toInt : Value → Int
  | int n => n
  | float x =>
    match Binary64.parts x with
    | .nan => 0
    | .infinite negative => if negative then Word64.minValue else Word64.maxValue
    | .finite negative mantissa exponent =>
      max Word64.minValue (min Word64.maxValue (Binary64.truncateParts negative mantissa exponent))

/-- The double view: the double nearest to an integer. -/
def toFloat : Value → Except EvalError Float
  | int n =>
    match Binary64.ofInt? n with
    | some x => .ok x
    | none => .error .tooLarge
  | float x => .ok x

/-- The low eight bits of the integer view. -/
def toByte (v : Value) : UInt8 :=
  UInt8.ofNat (v.toInt % 256).toNat

/-- Equality. An integer equals a double when their double views and their integer views agree. -/
def equal : Value → Value → Except EvalError Bool
  | int m, int n => .ok (m == n)
  | float x, float y => .ok (x == y)
  | int m, float y => do return (← toFloat (int m)) == y && m == toInt (float y)
  | float x, int n => do return x == (← toFloat (int n)) && toInt (float x) == n

/-- Strict order. Of an integer and a double the double views are compared. -/
def less : Value → Value → Except EvalError Bool
  | int m, int n => .ok (decide (m < n))
  | a, b => do
    let x ← a.toFloat
    let y ← b.toFloat
    return decide (x < y)

/-- Order. Of an integer and a double the double views are compared. -/
def atMost : Value → Value → Except EvalError Bool
  | int m, int n => .ok (decide (m ≤ n))
  | a, b => do
    let x ← a.toFloat
    let y ← b.toFloat
    return decide (x ≤ y)

/-- The sum of two values: exact on integers, in doubles as soon as one of them is a double. -/
def add : Value → Value → Except EvalError Value
  | int m, int n => .ok (int (m + n))
  | a, b => do return float ((← a.toFloat) + (← b.toFloat))

end Value

end ProgramArt.Beat
