import ProgramArt.Beat.Eval

/-!
# Images of formulas

A formula is evaluated once for every pixel of an image; the low byte of its value is the pixel. The scratch stack is
used over and over along a row (`renderRow`).
-/

namespace ProgramArt.Beat

/-- An image of bytes, row by row from the top. -/
abbrev Raster := List (List UInt8)

/-- Where the mouse and the keyboard stand. -/
structure Controls where
  mouseX : Datum := .int 0
  mouseY : Datum := .int 0
  keyX : Datum := .int 0
  keyY : Datum := .int 0

/-- The controls of a list of at most four data; those that are missing are zero. -/
def Controls.ofList? (data : List Datum) : Option Controls :=
  let nth (i : Nat) : Datum := data.getD i (.int 0)
  if data.length ≤ 4 then some ⟨nth 0, nth 1, nth 2, nth 3⟩ else none

/-- The sample of one pixel. -/
def Controls.sample (controls : Controls) (frame : Datum) (x y : Nat) : RawSample where
  frame := frame
  mouseX := controls.mouseX
  mouseY := controls.mouseY
  screenX := .int x
  screenY := .int y
  keyX := controls.keyX
  keyY := controls.keyY

/-- The pixels of a row from column `x` on, `count` of them. -/
def renderRow [Host] (program : Program) (frame : Datum) (controls : Controls) (y : Nat) :
    (count x : Nat) → Stack → Except EvalError (List UInt8)
  | 0, _, _ => .ok []
  | count + 1, x, scratch =>
    match eval scratch program (controls.sample frame x y) with
    | (.error e, _) => .error e
    | (.ok value, scratch) => do
      return value.toByte :: (← renderRow program frame controls y count (x + 1) scratch)

/-- The image of a formula. -/
def render [Host] (program : Program) (width height : Nat) (frame : Datum) (controls : Controls) :
    Except EvalError Raster :=
  (List.range height).mapM fun y => renderRow program frame controls y width 0 []

/-- A black image. Its row is made only if there are rows. -/
def Raster.black (width height : Nat) : Raster :=
  if height = 0 then [] else List.replicate height (List.replicate width 0)

/-! ## Sizes from data -/

/-- Why there is no image in a size that data give. -/
inductive RenderError where
  /-- A side is no whole number. -/
  | badSide
  /-- There are not four settings of the mouse and the keyboard. -/
  | badControls
  /-- The pixels do not fill an image of that size. -/
  | badShape
  | eval (error : EvalError)
deriving DecidableEq

/-- A side that rows or columns can be counted by. A truth value counts as one or zero, but is no side of
an image in the end. -/
def countedSide : Datum → Except RenderError (Int × Bool)
  | .int n => .ok (n, true)
  | .bool b => .ok (if b then 1 else 0, false)
  | _ => .error .badSide

/-- The side of an image that rows or columns were counted by: a word, and no truth value. -/
def imageSide : Int × Bool → Except RenderError Int
  | (_, false) => .error .badSide
  | (n, true) => if n < Word64.minValue ∨ Word64.maxValue < n then .error .badShape else .ok n

/-- The width and the height of an image with the given sides. A negative side is found from the other
one, of which there has to be something. -/
def shape (width height : Int) : Except RenderError (Nat × Nat) :=
  if width < 0 then if 0 < height then .ok (0, height.toNat) else .error .badShape
  else if height < 0 then if 0 < width then .ok (width.toNat, 0) else .error .badShape
  else .ok (width.toNat, height.toNat)

/-- The image of a formula, with its width and height, in a size that data give. -/
def renderData [Host] (program : Program) (width height frame : Datum) (controls : List Datum) :
    Except RenderError (Nat × Nat × Raster) := do
  let rows ← countedSide height
  let raster ←
    if rows.1 ≤ 0 then pure []
    else
      match controls.length == 4, Controls.ofList? controls with
      | true, some controls =>
        let (columns, _) ← countedSide width
        (render program columns.toNat rows.1.toNat frame controls).mapError .eval
      | _, _ => throw .badControls
  let columns ← countedSide width
  let height ← imageSide rows
  let width ← imageSide columns
  let (width, height) ← shape width height
  return (width, height, raster)

end ProgramArt.Beat
