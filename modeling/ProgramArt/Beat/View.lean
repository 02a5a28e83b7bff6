import ProgramArt.Beat.Value
import ProgramArt.Datum.Order

/-!
# Views of data

The views and comparisons of values can be asked of any datum. A datum that is no number has some of them all the
same: everything but zero is true, a text may be read as a double, and data of one kind are compared in their own
order.
-/

namespace ProgramArt.Beat

/-- Why a datum has no view. -/
inductive ViewError where
  /-- The datum is no number, or cannot be compared. -/
  | wrongType
  /-- The datum is a text, but no numeral. -/
  | notNumeral
  /-- The datum is an integer beyond the largest double. -/
  | tooLarge
deriving DecidableEq

namespace View

/-- The integer that a datum is, where truth values count as one and zero. -/
def whole? : Datum → Option Int
  | .int n => some n
  | .bool b => some (if b then 1 else 0)
  | _ => none

/-- The word of an integer. -/
def wrapped (datum : Datum) : Except ViewError Int :=
  match whole? datum with
  | some n => .ok (Word64.wrap n)
  | none => .error .wrongType

/-- Everything but zero is true. -/
def isTrue (datum : Datum) : Bool :=
  match Value.ofNumber? datum with
  | some v => v.isTrue
  | none => true

/-- The integer view. Integers and truth values are their own. -/
def integer : Datum → Except ViewError Datum
  | .int n => .ok (.int n)
  | .bool b => .ok (.bool b)
  | .float x => .ok (.int (Value.float x).toInt)
  | .nan _ => .ok (.int (Value.float Binary64.nan).toInt)
  | _ => .error .wrongType

/-- The double view of a value. -/
def ofValue (v : Value) : Except ViewError Float :=
  match v.toFloat with
  | .ok x => .ok x
  | .error _ => .error .tooLarge

/-- The double view of a number. -/
def number (datum : Datum) : Except ViewError Float :=
  match Value.ofNumber? datum with
  | some v => ofValue v
  | none => .error .wrongType

/-- The double view. A text is read as a double. -/
def double : Datum → Except ViewError Float
  | .str text =>
    match Decimal.typedNumber? text with
    | some x => .ok x
    | none => .error .notNumeral
  | datum => number datum

/-- The low eight bits of the integer view. -/
def byte (datum : Datum) : Except ViewError UInt8 := do
  match whole? (← integer datum) with
  | some n => return (Value.int n).toByte
  | none => throw .wrongType

/-- Equality. An integer equals a double when their double views and their integer views agree, and no
other datum. -/
def equal (a b : Datum) : Except ViewError Bool :=
  match whole? a, whole? b with
  | some m, none => withInteger m b
  | none, some n => withInteger n a
  | _, _ => .ok (a.same b)
where
  /-- Equality of an integer and a datum that is none. -/
  withInteger (n : Int) (other : Datum) : Except ViewError Bool := do
    let x ← ofValue (.int n)
    match other with
    | .float y => return x == y && n == (Value.float y).toInt
    | _ => return false

/-- The answer of a comparison, if there is one. -/
def answered : Option Bool → Except ViewError Bool
  | some answer => .ok answer
  | none => .error .wrongType

/-- A comparison of two data. Of an integer and another datum the double views are compared, and the first
of the two that has none is the fault. -/
def ordering (data : Datum → Datum → Option Bool) (doubles : Float → Float → Bool) (a b : Datum) :
    Except ViewError Bool :=
  if (whole? a).isSome == (whole? b).isSome then answered (data a b)
  else do
    let x ← double a
    let y ← double b
    return doubles x y

/-- Whether the first is less than the second. -/
def less : Datum → Datum → Except ViewError Bool :=
  ordering Datum.less? fun x y => decide (x < y)

/-- Whether the first is at most the second. -/
def atMost : Datum → Datum → Except ViewError Bool :=
  ordering Datum.atMost? fun x y => decide (x ≤ y)

/-- Whether the first is greater than the second. -/
def greater : Datum → Datum → Except ViewError Bool :=
  ordering (fun a b => b.less? a) fun x y => decide (y < x)

/-- Whether the first is at least the second. -/
def atLeast : Datum → Datum → Except ViewError Bool :=
  ordering (fun a b => b.atMost? a) fun x y => decide (y ≤ x)

end View

end ProgramArt.Beat
