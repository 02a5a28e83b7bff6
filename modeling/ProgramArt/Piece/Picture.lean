import ProgramArt.Picture.Basic
import ProgramArt.Piece.Sizes

/-!
# Pictures of pieces

A tape is drawn as squares, one for each cell, in rows from the top left (`paintSquares`); the colour of a square
depends on its cell, and the cell under the pointer has an outline that tells the next instruction. A formula's image
is drawn in green, scaled to the size of the picture (`paintGreen`). Both are drawn over a picture of any content.
-/

namespace ProgramArt

/-! ## Tapes -/

/-- The colour of a cell's square: odd multiples of the cell keep different cells apart. -/
def cellColor (cell : Int8) : Color :=
  let v := cell.toUInt8
  ⟨v * 63, v * 65, v * 67⟩

/-- The colour of the outline around the pointer, by the instruction about to run. -/
def outlineColor : Tape.Instr → Color
  | .inc => ⟨0, 255, 0⟩
  | .dec => ⟨255, 0, 0⟩
  | .left => ⟨255, 128, 128⟩
  | .right => ⟨128, 255, 128⟩
  | .enter => ⟨0, 128, 255⟩
  | .leave => ⟨255, 128, 0⟩
  | .read => ⟨255, 255, 0⟩
  | .write => ⟨0, 255, 255⟩

/-- The cell that is drawn at a pixel of a picture of the given width. -/
def cellIndex (side : Int) (width x y : Nat) : Int :=
  Int.fdiv y side * Int.fdiv width side + Int.fdiv x side

/-- The pixel is on the edge of its square. -/
def onEdge (side : Int) (x y : Nat) : Bool :=
  let dx := Int.fmod x side
  let dy := Int.fmod y side
  dx == 0 || dy == 0 || dx == side - 1 || dy == side - 1

/-- The value drawn for a cell: zero beyond the tape. -/
def visibleCell (cells : Array Int8) (index : Int) : Option Int8 :=
  if (cells.size : Int) ≤ index then some 0
  else (Index.resolve cells.size index).map fun i => cells[i]

/-- The colour of one pixel, drawn over the colour that it has. -/
def tapePixel (state : Tape.State) (instr : Tape.Instr) (side : Int) (width x y : Nat) (old : Color) :
    Except PieceError Color :=
  let index := cellIndex side width x y
  match visibleCell state.cells index with
  | none => .error .outOfRange
  | some cell =>
    let filled := (cellColor cell).over old
    .ok (if onEdge side x y ∧ index = state.ptr then (outlineColor instr).over filled else filled)

/-- The side of squares that a datum gives for a picture: a whole number of one word. A double gives
squares between the cells, and none of these is there. -/
def squareSide (width height : Nat) : Datum → Except PieceError Int
  | .int n =>
    if n = 0 then .error .noPixelSize
    else if n < Word64.minValue ∨ Word64.maxValue < n then .error .pixelSizeTooLarge
    else .ok n
  | .bool true => .ok 1
  | .bool false => .error .noPixelSize
  | .float x => .error (if x == 0.0 then .noPixelSize else .outOfRange)
  | .nan _ => .error .outOfRange
  | .list sizes => .error (tableFault (.list sizes) width height)
  | _ => .error .badPixelSize

/-- The instruction that the outline tells: the one about to run. A machine that has halted is outlined as if
`+` came next. -/
def TapePiece.outlined (piece : TapePiece) : Except PieceError Tape.Instr :=
  if piece.state.halted piece.program then .ok .inc
  else
    match piece.program.get? piece.state.pc with
    | some instr => .ok instr
    | none => .error .outOfRange

/-- Draw a tape in squares over a picture of the given size, with the outline that tells an instruction. -/
def paintSquares (state : Tape.State) (instr : Tape.Instr) (size : Datum) (width height : Nat) (before : Picture) :
    Except PieceError Picture := do
  let side ← squareSide width height size
  before.redraw (tapePixel state instr side width)

/-- Draw a tape piece over a picture of the given size. -/
def TapePiece.paint (piece : TapePiece) (width height : Nat) (before : Picture) : Except PieceError Picture := do
  let instr ← piece.outlined
  paintSquares piece.state instr piece.pixelSize width height before

/-! ## Formulas -/

/-- The row or column of a source of `source` rows or columns that is drawn at place `i` of `target`. The
product of place and source is a word, wrapped by `Word64.wrap`. -/
def sourceIndex (source target i : Nat) : Int :=
  Int.fdiv (Word64.wrap (i * source)) target

/-- The byte of an image at a row and a column, each counted from either end by `Index.resolve`. -/
def byteAt? (image : Array (Array UInt8)) (row column : Int) : Option UInt8 := do
  let bytes ← image[← Index.resolve image.size row]?
  bytes[← Index.resolve bytes.size column]?

/-- The pixel of an image in shades of green, drawn over the colour that is there. -/
def greenPixel (image : Array (Array UInt8)) (row column : Int) (old : Color) : Except PieceError Color :=
  match byteAt? image row column with
  | some value => .ok (Color.over ⟨0, value, 0⟩ old)
  | none => .error .outOfRange

/-- Draw an image of the given size in green over a picture, scaled to the size of the picture. -/
def paintGreen (image : Beat.Raster) (sourceWidth sourceHeight width height : Nat) (before : Picture) :
    Except PieceError Picture :=
  let image := (image.map List.toArray).toArray
  before.redraw fun x y =>
    greenPixel image (sourceIndex sourceHeight height y) (sourceIndex sourceWidth width x)

/-- Draw a formula piece over a picture of the given size. -/
def BeatPiece.paint (piece : BeatPiece) (width height : Nat) (before : Picture) : Except PieceError Picture :=
  paintGreen piece.image piece.width piece.height width height before

/-! ## Pieces -/

namespace Piece

/-- Draw a piece over a picture of the given size. -/
def paint (piece : Piece) (width height : Nat) (before : Picture) : Except PieceError Picture :=
  match piece with
  | tape piece => piece.paint width height before
  | beat piece => piece.paint width height before

/-- `paint` a piece over a picture, for which there has to be room (`allot`). The rows and the columns are numbered
first: by two words for every pixel of a tape, then by one for every row and one for every column. -/
def drawOver [Host] (piece : Piece) (width height : Nat) (before : Picture) : Except PieceError Picture := do
  if piece.kind = .tape then allot 16 [height, width]
  allot 8 [height]
  allot 8 [width]
  piece.paint width height before

/-- Draw a piece on black. -/
def draw [Host] (piece : Piece) (width height : Nat) : Except PieceError Picture :=
  piece.drawOver width height (.filled ⟨0, 0, 0⟩ width height)

end Piece

end ProgramArt
