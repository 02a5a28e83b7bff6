import ProgramArt.Beat.Raster
import ProgramArt.Beat.Token
import ProgramArt.Datum.Order
import ProgramArt.Evolution.Beat
import ProgramArt.Evolution.Tape
import ProgramArt.Interest
import ProgramArt.Tape.Run

/-!
# Pieces of art

A piece is a program together with what it needs to be shown frame by frame. A `TapePiece` is a machine that runs a
number of steps for each frame; a `BeatPiece` is an image that is computed anew for each frame. A piece can be reset,
advanced by a frame (`Piece.update`), scored, and mutated into a new piece.
-/

namespace ProgramArt

/-- The kinds of pieces. -/
inductive Kind where
  | tape
  | beat
deriving DecidableEq

/-- The name of a kind. -/
def Kind.name : Kind → String
  | tape => "brainfuck"
  | beat => "bytebeat"

/-- The kind of a name. -/
def Kind.ofName? : String → Option Kind
  | "brainfuck" => some tape
  | "bytebeat" => some beat
  | _ => none

/-- A tape machine at work. -/
structure TapePiece where
  program : Tape.Program
  /-- The text that the program reads over and over. -/
  inputText : String
  /-- The side of the square that a cell is drawn as. It is looked at only when the piece is drawn. -/
  pixelSize : Datum
  state : Tape.State
  input : Tape.Input

/-- A formula and the image of its last frame. -/
structure BeatPiece where
  program : Beat.Program
  width : Nat
  height : Nat
  /-- The number of the next frame. -/
  frame : Beat.Value
  image : Beat.Raster

/-- A piece of art. -/
inductive Piece where
  | tape (piece : TapePiece)
  | beat (piece : BeatPiece)

/-- What can go wrong with a piece. -/
inductive PieceError where
  /-- A datum that is no program, by the name of its kind. -/
  | notProgram (type : String)
  /-- A datum that is no piece, by the name of its kind. -/
  | notPiece (type : String)
  /-- A kind of pieces that does not exist, as messages show it. -/
  | unknownKind (shown : String)
  /-- A setting that the kind of piece does not have. -/
  | unknownOption
  /-- A text to read that is no text. -/
  | inputNotText
  /-- A text to read that cannot be written out. -/
  | notEncodable (reason : String)
  /-- A side of an image that is no whole number. -/
  | badSide
  /-- An image with a negative side. -/
  | negativeSide
  /-- An image with a side that is too long. -/
  | sideTooLong
  /-- An image of too many pixels. -/
  | tooManyPixels
  /-- An image for which there is no room. -/
  | noRoom
  /-- A length of random programs that is no number. -/
  | badLength
  /-- A chance that is no number. -/
  | badChance
  /-- More settings of the mouse and the keyboard than there are. -/
  | tooManyControls
  /-- A speed that is no number of steps. -/
  | badSpeed
  /-- A frame number beyond the largest double. -/
  | frameTooLarge
  /-- Squares of no size. -/
  | noPixelSize
  /-- Squares of more than any size. -/
  | pixelSizeTooLarge
  /-- Squares whose size is no number. -/
  | badPixelSize
  /-- Sizes of squares that cannot be laid out over the picture. -/
  | unevenPixelSize
  /-- A picture that shows what is not there. -/
  | outOfRange
  | start (error : Tape.StartError)
  | step (error : Tape.StepError)
  | eval (error : Beat.EvalError)
  | program (error : Tape.ProgramError)
  | text (error : Beat.TextError)
  | evolution (error : Evolution.EvolutionError)
deriving DecidableEq

/-- The report of what went wrong with a piece, where it has a text of its own. -/
def PieceError.message? [Host] : PieceError → Option String
  | notProgram type => some s!"Not an art program: {type}"
  | notPiece type => some s!"Not an art piece: {type}"
  | unknownKind shown => some s!"Unknown art kind: {shown}"
  | unknownOption | inputNotText | notEncodable _ | badSide | negativeSide | sideTooLong => none
  | tooManyPixels | noRoom | badLength | badChance | tooManyControls | badSpeed | frameTooLarge => none
  | noPixelSize | pixelSizeTooLarge | badPixelSize | unevenPixelSize | outOfRange => none
  | start error => error.message?
  | step error => error.message?
  | eval error => error.message?
  | program error => some error.message
  | text (.parse error) => error.message?
  | text (.compile error) => some error.message
  | evolution error => some error.message

/-! ## Making pieces -/

/-- The text that tape programs read. -/
def defaultInputText : String := "Hello, world!"

/-- The side of the square that a cell is drawn as. -/
def defaultPixelSize : Int := 32

/-- The side of a formula's image. -/
def defaultSide : Int := 128

/-- The most steps of a single frame. -/
def maxSpeed : Nat := 2000000

/-- Settings of a new piece, each of which may be left out. -/
structure PieceOptions where
  inputText : Option Datum := none
  pixelSize : Option Datum := none
  policy : Option Tape.Policy := none
  width : Option Datum := none
  height : Option Datum := none

/-- The text that a datum gives a piece to read. -/
def readable : Datum → Except PieceError String
  | .str text => .ok text
  | .rawText codes => .error (.notEncodable ((Text.encodingFault? codes).getD ""))
  | _ => .error .inputNotText

/-- The bound of the sides of images. -/
def sideBound : Nat := Nat.pow 2 63

/-- The side of an image that a datum gives. A truth value is no whole number here. -/
def wholeSide : Datum → Except PieceError Int
  | .int n => if sideBound ≤ n.natAbs then .error .sideTooLong else .ok n
  | _ => .error .badSide

/-- Make room for a table with the given sides and so many bytes an entry. Its size has to be countable
even if a side of zero is taken for one. -/
def allot [Host] (bytes : Nat) (sides : List Nat) : Except PieceError Unit :=
  if sideBound ≤ sides.foldl (fun size side => size * max side 1) bytes then .error .tooManyPixels
  else if Host.imageBound ≤ sides.foldl (fun size side => size * side) bytes then .error .noRoom
  else .ok ()

/-- The width and the height of an image with so many bytes a pixel. -/
def imageSize [Host] (width height : Datum) (bytes : Nat) : Except PieceError (Nat × Nat) := do
  let height ← wholeSide height
  let width ← wholeSide width
  if width < 0 ∨ height < 0 then throw .negativeSide
  allot bytes [height.toNat, width.toNat]
  return (width.toNat, height.toNat)

/-- A tape piece at its first frame. -/
def TapePiece.start (program : Tape.Program) (inputText : String) (pixelSize : Datum)
    (policy : Tape.Policy) : TapePiece where
  program := program
  inputText := inputText
  pixelSize := pixelSize
  state := .blank policy
  input := .cycle inputText

/-- A formula piece at its first frame. -/
def BeatPiece.start (program : Beat.Program) (width height : Nat) : BeatPiece where
  program := program
  width := width
  height := height
  frame := .int 0
  image := .black width height

namespace Piece

/-- The text of a piece's program, by its code points. -/
def code [Host] : Piece → Text.Codes
  | tape piece => Text.codesOf piece.program.text
  | beat piece => piece.program.codes

/-- The kind of a piece. -/
def kind : Piece → Kind
  | tape _ => .tape
  | beat _ => .beat

/-- The tape that the settings of a new piece give. -/
def tapePolicy [Host] (options : PieceOptions) : Except PieceError Tape.Policy :=
  let policy := options.policy.getD .default
  match Tape.State.fresh policy with
  | .error e => .error (.start e)
  | .ok _ => .ok policy

/-- A new piece of a tape program. -/
def ofTape [Host] (program : Tape.Program) (options : PieceOptions) : Except PieceError Piece := do
  let policy ← tapePolicy options
  if options.width.isSome || options.height.isSome then throw .unknownOption
  let text ← readable (options.inputText.getD (.str defaultInputText))
  return tape (.start program text (options.pixelSize.getD (.int defaultPixelSize)) policy)

/-- A new piece of a formula. -/
def ofBeat [Host] (program : Beat.Program) (options : PieceOptions) : Except PieceError Piece := do
  if options.inputText.isSome || options.pixelSize.isSome || options.policy.isSome then
    throw .unknownOption
  let side : Datum := .int defaultSide
  let (width, height) ← imageSize (options.width.getD side) (options.height.getD side) 1
  return beat (.start program width height)

/-- A new piece of a program text. -/
def ofText [Host] (kind : Kind) (text : Text.Codes) (options : PieceOptions) : Except PieceError Piece :=
  match kind with
  | .tape =>
    match Tape.Program.parse (Text.ofCodes text) with
    | .ok program => ofTape program options
    | .error e => .error (.program e)
  | .beat =>
    match Beat.Program.ofText text with
    | .ok program => ofBeat program options
    | .error e => .error (.text e)

/-- A datum is no program. -/
def ofProgramDatum (datum : Datum) : Except PieceError Piece :=
  .error (.notProgram datum.typeName)

/-- A datum is no piece. -/
def ofDatum (datum : Datum) : Except PieceError Piece :=
  .error (.notPiece datum.typeName)

/-- Computations on pieces that draw from a source. -/
abbrev Drawing (σ α : Type) := Draw.Draws PieceError σ α

variable {σ α : Type} [Draw.Source σ]

/-- Evolve a program as a part of a computation on pieces. -/
def evolving (m : Evolution.Evolving σ α) : Drawing σ α :=
  fun source =>
    match m source with
    | (.ok a, rest) => (.ok a, rest)
    | (.error e, rest) => (.error (.evolution e), rest)

/-- A piece of a random program of at least `length` instructions or commands. -/
def random [Host] (kind : Kind) (length : Datum) (io : Bool) (options : PieceOptions) : Drawing σ Piece := do
  let some length := length.countBelow? | throw .badLength
  match kind with
  | .tape =>
    let program ← evolving (Evolution.randomTape length io)
    liftM (ofTape program options)
  | .beat =>
    let program ← evolving (Evolution.randomBeat length)
    liftM (ofBeat program options)

end Piece

/-! ## Working with pieces -/

namespace TapePiece

/-- Return to the first frame. -/
def reset (piece : TapePiece) : TapePiece :=
  .start piece.program piece.inputText piece.pixelSize piece.state.policy

/-- The number of steps that a speed stands for. It is cut off at both ends; a double in between is
no number of steps. -/
def stepsOf : Beat.Value → Option Nat
  | .int n => some (min n.toNat maxSpeed)
  | .float x => if x < 0.0 then some 0 else if 2000000.0 < x then some maxSpeed else none

/-- Run up to `steps` steps. What was reached before a failing step is kept. -/
def run [Host] (piece : TapePiece) (steps : Nat) : TapePiece × Option PieceError :=
  let outcome := Tape.run piece.program steps piece.state piece.input
  ({ piece with state := outcome.state, input := outcome.input }, outcome.fault.map .step)

/-- Advance by one frame. -/
def update [Host] (piece : TapePiece) (speed : Datum) : TapePiece × Option PieceError :=
  match (Beat.Value.ofNumber? speed).bind stepsOf with
  | some steps => piece.run steps
  | none => (piece, some .badSpeed)

/-- The interest of the output, in hundredths. -/
def score (piece : TapePiece) : Float :=
  let hundredths := Interest.ofOutput (piece.state.output.toList.map Int8.toInt)
  Binary64.ofNat hundredths / 100.0

end TapePiece

namespace BeatPiece

/-- Return to the first frame. The image is left until the next one is computed. -/
def reset (piece : BeatPiece) : BeatPiece :=
  { piece with frame := .int 0 }

/-- Compute the image of the frame and go on by `speed`. The image stays also when the speed is no
number. -/
def update [Host] (piece : BeatPiece) (speed : Datum) (controls : Beat.Controls) :
    BeatPiece × Option PieceError :=
  match Beat.render piece.program piece.width piece.height piece.frame.toDatum controls with
  | .error e => (piece, some (.eval e))
  | .ok image =>
    let drawn := { piece with image }
    match Beat.Value.ofNumber? speed with
    | none => (drawn, some .badSpeed)
    | some speed =>
      match piece.frame.add speed with
      | .ok frame => ({ drawn with frame }, none)
      | .error _ => (drawn, some .frameTooLarge)

/-- The interest of the image. -/
def score [Host] (piece : BeatPiece) : Float :=
  Interest.ofPixels piece.image.flatten

end BeatPiece

namespace Piece

/-- Return to the first frame. -/
def reset : Piece → Piece
  | tape piece => tape piece.reset
  | beat piece => beat piece.reset

/-- Advance by one frame. A tape piece runs up to `speed` steps; a formula piece computes the image of
the frame and then goes on by `speed` frames. -/
def update [Host] (piece : Piece) (speed : Datum) (controls : Beat.Controls) : Piece × Option PieceError :=
  match piece with
  | tape piece =>
    let (piece, fault) := piece.update speed
    (tape piece, fault)
  | beat piece =>
    let (piece, fault) := piece.update speed controls
    (beat piece, fault)

/-- How interesting the current output is. -/
def score [Host] : Piece → Float
  | tape piece => piece.score
  | beat piece => piece.score

variable {σ : Type} [Draw.Source σ]

/-- A new piece, at its first frame, of a mutated program. A tape piece starts on the default tape. -/
def mutate (piece : Piece) (chance : Float) : Drawing σ Piece :=
  match piece with
  | tape piece => do
    let program ← evolving (Evolution.mutateTape piece.program chance)
    return tape (.start program piece.inputText piece.pixelSize .default)
  | beat piece => do
    let program ← evolving (Evolution.mutateBeat piece.program chance)
    return beat (.start program piece.width piece.height)

/-- Whether a piece has nothing that could be mutated. -/
def isEmpty : Piece → Bool
  | tape piece => piece.program.instrs.isEmpty
  | beat piece => piece.program.cmds.isEmpty

/-- A new piece of a program that is mutated with the chance that a datum gives. A datum that is no
number fails once it is compared with the first draw. -/
def mutateBy (piece : Piece) (chance : Datum) : Drawing σ Piece :=
  match chance.chance? with
  | some chance => piece.mutate chance
  | none =>
    if piece.isEmpty then piece.mutate 0.0
    else do
      let _ ← evolving (Evolution.drawUnit : Evolution.Evolving σ Float)
      throw .badChance

end Piece

end ProgramArt
