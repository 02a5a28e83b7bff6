/-!
# Pictures

A picture is an image of colours, row by row from the top. What is drawn is drawn over a picture that is there already
(`Picture.redraw`).
-/

namespace ProgramArt

/-- Parts of red, green and blue. -/
structure Color where
  red : UInt8
  green : UInt8
  blue : UInt8
deriving DecidableEq, Inhabited

/-- The three bytes of a colour. -/
def Color.bytes (c : Color) : List UInt8 := [c.red, c.green, c.blue]

/-- Draw a colour over another one, part by part. -/
def Color.over (new old : Color) : Color :=
  let old := { old with red := new.red }
  let old := { old with green := new.green }
  { old with blue := new.blue }

/-- An image of colours, row by row from the top. -/
abbrev Picture := List (List Color)

namespace Picture

/-- A picture of one colour. Its row is made only if there are rows. -/
def filled (color : Color) (width height : Nat) : Picture :=
  if height = 0 then [] else List.replicate height (List.replicate width color)

/-- Draw over a picture: each pixel gets a new colour, by its column, its row and the colour it has. -/
def redraw {ε : Type} (picture : Picture) (draw : (x y : Nat) → Color → Except ε Color) : Except ε Picture :=
  picture.zipIdx.mapM fun (row, y) => row.zipIdx.mapM fun (old, x) => draw x y old

end Picture

end ProgramArt
