import ProgramArt.Beat.Program

/-!
# Evaluating formulas

Commands act on a stack of values, the last pushed on top (`execute`, `executeAll`). Operands are bound in the order
in which they were pushed, so `a b -` is `a - b`. A `Sample` says what the variables stand for, and `eval` gives the
value of a formula on it.
-/

namespace ProgramArt.Beat

/-! ## Operators -/

/-- An operator on integers. -/
def IntOp.apply : IntOp → Int → Int → Int
  | add, a, b => Word64.wrap (a + b)
  | sub, a, b => Word64.wrap (a - b)
  | mul, a, b => Word64.wrap (a * b)
  | div, a, b => Word64.quotient a b
  | mod, a, b => Word64.remainder a b
  | shl, a, b => Word64.shiftLeft a b
  | shr, a, b => Word64.shiftRight a b
  | and, a, b => Word64.and a b
  | or, a, b => Word64.or a b
  | xor, a, b => Word64.xor a b

/-- A function of an angle. -/
def TrigOp.apply [Host] : TrigOp → Float → Float
  | sin, x => Host.sin x
  | cos, x => Host.cos x
  | tan, x => Host.tan x

/-- An operator on doubles. Division by zero, and the remainder of it, is zero. -/
def FloatOp.apply [Host] : FloatOp → Float → Float → Float
  | pow, a, b => Host.pow a b
  | add, a, b => a + b
  | sub, a, b => a - b
  | mul, a, b => a * b
  | div, a, b => if b == 0.0 then 0.0 else a / b
  | mod, a, b => if b == 0.0 then 0.0 else Binary64.remainder a b

/-- A comparison. -/
def CompareOp.apply : CompareOp → Value → Value → Except EvalError Bool
  | lt, a, b => a.less b
  | gt, a, b => b.less a
  | le, a, b => a.atMost b
  | ge, a, b => b.atMost a
  | eq, a, b => a.equal b
  | ne, a, b => return !(← a.equal b)

/-! ## Samples -/

/-- What the variables stand for. -/
structure Sample where
  frame : Value
  mouseX : Value
  mouseY : Value
  screenX : Value
  screenY : Value
  keyX : Value
  keyY : Value
deriving DecidableEq

/-- The value of a variable. -/
def Sample.get (sample : Sample) : Variable → Value
  | .frame => sample.frame
  | .mouseX => sample.mouseX
  | .mouseY => sample.mouseY
  | .screenX => sample.screenX
  | .screenY => sample.screenY
  | .keyX => sample.keyX
  | .keyY => sample.keyY

/-- A sample as it comes from outside. -/
structure RawSample where
  frame : Datum := .int 0
  mouseX : Datum := .int 0
  mouseY : Datum := .int 0
  screenX : Datum := .int 0
  screenY : Datum := .int 0
  keyX : Datum := .int 0
  keyY : Datum := .int 0

/-- The sample of a list of at least `least` and at most seven data; those that are missing are zero. -/
def RawSample.ofList? (least : Nat) (data : List Datum) : Option RawSample :=
  let nth (i : Nat) : Datum := data.getD i (.int 0)
  if least ≤ data.length && data.length ≤ 7 then
    some ⟨nth 0, nth 1, nth 2, nth 3, nth 4, nth 5, nth 6⟩
  else none

/-- The sample of seven data, which have to be numbers. -/
def Sample.ofData (raw : RawSample) : Except EvalError Sample := do
  let frame ← Value.ofDatum raw.frame
  let mouseX ← Value.ofDatum raw.mouseX
  let mouseY ← Value.ofDatum raw.mouseY
  let screenX ← Value.ofDatum raw.screenX
  let screenY ← Value.ofDatum raw.screenY
  let keyX ← Value.ofDatum raw.keyX
  let keyY ← Value.ofDatum raw.keyY
  return { frame, mouseX, mouseY, screenX, screenY, keyX, keyY }

/-! ## Stacks -/

/-- A stack, its top first. -/
abbrev Stack := List Value

/-- Take the top `n` values, in the order in which they were pushed, and give the rest. Of a stack
with fewer values all are taken. A negative `n` leaves the `-n` deepest values and takes the others. -/
def popCount {α : Type} (stack : List α) (n : Int) : List α × List α :=
  let count := if n < 0 then stack.length - n.natAbs else n.toNat
  ((stack.take count).reverse, stack.drop count)

/-! ## Execution -/

/-- The value that an index chooses among the `size` values on top of a stack, or among fewer if there are no more. The
first of them is the deepest, and the index is taken modulo `size`. -/
def chosen? (size : Nat) (index : Int) (stack : Stack) : Option Value :=
  (popCount stack size).1[(index % size).toNat]?

variable [Host]

/-- One command on a stack. -/
def execute (sample : Sample) : Cmd → Stack → Except EvalError Stack
  | .var v, stack => .ok (sample.get v :: stack)
  | .float x, stack => .ok (.float x :: stack)
  | .int n, stack => .ok (.int n :: stack)
  | .hex n, stack => .ok (.int n :: stack)
  | .intOp op, b :: a :: rest => .ok (.int (op.apply a.toInt b.toInt) :: rest)
  | .trig op, a :: rest => do return .float (op.apply (← a.toFloat)) :: rest
  | .floatOp op, b :: a :: rest => do
    let x ← a.toFloat
    let y ← b.toFloat
    return .float (op.apply x y) :: rest
  | .compare op, b :: a :: rest => do return .int (if ← op.apply a b then 1 else 0) :: rest
  | .choose, condition :: otherwise :: thenValue :: rest =>
    .ok ((if condition.isTrue then thenValue else otherwise) :: rest)
  | .array 0, stack => .ok (.int 0 :: stack)
  | .array size, index :: rest =>
    match chosen? size index.toInt rest with
    | some value => .ok (value :: (popCount rest size).2)
    | none => .error .underflow
  | .remark _ _, stack => .ok stack
  | .comment _, stack => .ok stack
  | _, _ => .error .underflow

/-- Commands in order on a stack. -/
def executeAll (sample : Sample) : List Cmd → Stack → Except EvalError Stack
  | [], stack => .ok stack
  | cmd :: rest, stack => do executeAll sample rest (← execute sample cmd stack)

/-- The stack that commands leave. A command that fails has taken its operands. -/
def stackAfter (sample : Sample) : List Cmd → Stack → Stack
  | [], stack => stack
  | cmd :: rest, stack =>
    match execute sample cmd stack with
    | .ok next => stackAfter sample rest next
    | .error _ => stack.drop cmd.takes

/-- The value of a formula, starting from an empty stack, and what is left below it. -/
def evalSample (program : Program) (sample : Sample) : Except EvalError (Value × Stack) := do
  match ← executeAll sample program.cmds [] with
  | value :: rest => .ok (value, rest)
  | [] => .error .underflow

/-- Evaluate a formula with a scratch stack that the caller owns. The scratch stack is cleared, unless
the sample is refused, and holds afterwards what is left below the value, or by a command that fails. -/
def eval (scratch : Stack) (program : Program) (raw : RawSample) : Except EvalError Value × Stack :=
  match Sample.ofData raw with
  | .error e => (.error e, scratch)
  | .ok sample =>
    match evalSample program sample with
    | .ok (value, rest) => (.ok value, rest)
    | .error e => (.error e, stackAfter sample program.cmds [])

/-- Each command with the stack after it. -/
def traceFrom (sample : Sample) : List Cmd → Stack → Except EvalError (List (Cmd × Stack))
  | [], _ => .ok []
  | cmd :: rest, stack => do
    let next ← execute sample cmd stack
    return (cmd, next) :: (← traceFrom sample rest next)

/-- Each command of a formula with the stack after it. -/
def trace (program : Program) (raw : RawSample) : Except EvalError (List (Cmd × Stack)) := do
  traceFrom (← Sample.ofData raw) program.cmds []

end ProgramArt.Beat
