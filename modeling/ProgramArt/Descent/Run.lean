import ProgramArt.Descent.Basic
import ProgramArt.Piece.Picture

/-!
# A whole line of descent

A run takes a piece through its `generations`. Each generation is recorded in the lineage, drawn into a file if the
settings name a directory, and mutated into the next one. At the end the lineage is saved.
-/

namespace ProgramArt.Descent

variable {σ : Type}

/-! ## Pictures -/

/-- The size of pictures that the settings give. -/
def pictureSize [Host] (config : Config) : Except DescentError (Nat × Nat) :=
  (imageSize (config.value .width) (config.value .height) 3).mapError .piece

/-- The picture of a piece in the size that the settings give. -/
def snapshot [Host] (config : Config) (piece : Piece) : Except DescentError Picture := do
  let (width, height) ← pictureSize config
  (piece.draw width height).mapError .piece

/-- The name of the file of a generation. -/
def frameName (generation : Nat) : String :=
  s!"gen_{Text.zeroPadded 3 generation}.png"

/-- Make a directory and those on the way to it. -/
def makeDirectories [Host] (path : String) : Descending σ Unit := do
  let (folder, fault) := (← get).folder.ensureText path
  modify fun d => { d with folder }
  if let some e := fault then throw (.file e)

/-- Store a picture at a path. -/
def storePicture (path : String) (picture : Picture) : Descending σ Unit := do
  match (← get).folder.write path (.picture picture) with
  | .ok folder => modify fun d => { d with folder }
  | .error e => throw (.file e)

/-- Make the directory that the settings name, if they name one, and tell its path. -/
def frameDirectory [Host] : Descending σ (Option String) := do
  let config := (← get).config
  if config.isSet .outputDir then
    match config.value .outputDir with
    | .str directory =>
      makeDirectories directory
      return some directory
    | .rawText codes =>
      throw (.file (.notEncodable ((Text.encodingFault? codes).getD "")))
    | .bytes octets =>
      -- the directory is made, but no name can be put behind bytes
      let directory := String.ofList (octets.map fun byte => Char.ofNat byte.toNat)
      makeDirectories directory
      throw .wrongType
    | _ => throw .wrongType
  else return none

/-- Draw the piece of the current generation into a file, if the settings name a directory, and tell
its path. -/
def saveFrame [Host] (piece : Piece) : Descending σ (Option String) := do
  match ← frameDirectory with
  | none => return none
  | some directory =>
    match snapshot (← get).config piece with
    | .error e => throw e
    | .ok picture =>
      let path := joinPath directory (frameName (← get).generation)
      storePicture path picture
      return some path

/-! ## Generations -/

/-- The entry of a generation. -/
def entryOf (clock : Clock) (config : Config) (generation : Nat) (code : Text.Codes)
    (interest : Float) (parent : Option Text.Codes) : Entry :=
  .make clock.timestamp (.ofCodes code) (config.value .kind) (.int generation) (.float interest)
    ((parent.map Datum.ofCodes).getD .null)
    (.record [("mutation_chance", config.value .mutationChance)])

/-- Add an entry to the lineage. -/
def append (entry : Entry) : Descending σ Unit :=
  modify fun d =>
    { d with archive := { d.archive with lineage := d.archive.lineage.add entry } }

/-- Record a generation, and report it. -/
def record [Host] (generation : Nat) (piece : Piece) (interest : Float) (parent : Option Text.Codes) :
    Descending σ Unit := do
  modify fun d => { d with generation }
  let d ← get
  if d.archive.lineage.has (.ofCodes piece.code) then
    log s!"🔁 Gen {generation} repeats an earlier program"
  append (entryOf d.clock d.config generation piece.code interest parent)
  let number := Text.padLeft 3 (toString generation)
  log s!"Gen {number} | interest {Decimal.places 3 interest} | {Text.ofCodes piece.code}"

/-- Record a generation and the `rest` generations after it. The last piece and the paths of the
pictures are told. -/
def generations [Host] [Draw.Source σ] (generation : Nat) (piece : Piece) (interest : Float)
    (parent : Option Text.Codes) : (rest : Nat) → Descending σ (Piece × List String)
  | 0 => do
    record generation piece interest parent
    let frame ← saveFrame piece
    return (piece, frame.toList)
  | rest + 1 => do
    record generation piece interest parent
    let frame ← saveFrame piece
    let (child, childInterest) ← spawn piece
    let (last, frames) ←
      generations (generation + 1) child childInterest (some piece.code) rest
    return (last, frame.toList ++ frames)

/-! ## Runs -/

/-- What a run has come to. -/
structure Results where
  generations : Nat
  duration : Float
  finalCode : Text.Codes
  bestCode : Datum
  bestInterest : Datum
  /-- The paths of the pictures. -/
  frames : List String

/-- The record of the results. -/
def Results.toDatum (r : Results) : Datum :=
  .record
    [("generations", .int r.generations), ("duration", .float r.duration),
      ("final_code", .ofCodes r.finalCode), ("best_code", r.bestCode),
      ("best_interest", r.bestInterest), ("frames", .list (r.frames.map .str))]

/-- Report what a run is going to do. -/
def announce : Descending σ Unit := do
  let config := (← get).config
  let kind ← told (config.value .kind)
  let count ← told (config.value .generations)
  log s!"🧬 Starting {kind} lineage: {count} generations"
  let length ← told (config.value .programLength)
  let chance ← need ((config.value .mutationChance).places? 3)
  let seed ← told (config.value .seed)
  log s!"Program length: {length}, Mutation chance: {chance}, Seed: {seed}"

/-- Save the lineage, and report it. -/
def saveArchive [Host] : Descending σ Unit := do
  let d ← get
  let (folder, outcome) := d.archive.save d.clock.timestamp d.folder
  set { d with folder }
  match outcome with
  | .ok lines => say lines
  | .error e => throw (.archive e)

/-- Run the generations from a piece, or from the first piece of the settings, and save the lineage. -/
def runGenerations [Host] [Draw.Source σ] (start : Option Piece) : Descending σ Results := do
  let piece ←
    match start with
    | some piece => pure piece
    | none => initialPiece
  let (piece, interest) ← advanced piece
  let config := (← get).config
  let count ← need (config.whole? .generations)
  let (last, frames) ← generations 0 piece interest none count.toNat
  let clock := (← get).clock
  log s!"Evolution completed in {Decimal.places 2 clock.elapsed} seconds"
  saveArchive
  let d ← get
  let best ← need (d.archive.lineage.best? 1)
  return {
    generations := d.generation
    duration := clock.elapsed
    finalCode := last.code
    bestCode := (best.head?.map Entry.code).getD .null
    bestInterest := (best.head?.map Entry.interest).getD (.float 0.0)
    frames }

/-- Run a whole line of descent from a piece, or from the first piece of the settings. -/
def run [Host] [Draw.Source σ] (start : Option Piece) : Descending σ Results := do
  announce
  runGenerations start

end ProgramArt.Descent
