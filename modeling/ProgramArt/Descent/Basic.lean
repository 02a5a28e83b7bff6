import ProgramArt.Config.Basic
import ProgramArt.Lineage.Archive
import ProgramArt.Text.Aligned

/-!
# A line of descent

A descent evolves one piece after another. It holds the settings, the source of chance, the archive of the lineage and
the folder of its files, and it reports what happens in lines. What it has drawn, stored and reported stays so when a
step fails. `advance` shows the frames of a generation, and `spawn` gives the next piece.
-/

namespace ProgramArt

/-- The time that a run shows. -/
structure Clock where
  /-- The date and the time, for entries. -/
  timestamp : String
  /-- The time of the day, for reports. -/
  time : String
  /-- The seconds that a run takes. -/
  elapsed : Float := 0.0

/-- Why a line of descent breaks off. -/
inductive DescentError where
  | piece (error : PieceError)
  | file (error : FileError)
  /-- The archive of the lineage cannot be opened or saved. -/
  | archive (error : ArchiveError)
  /-- A setting that has to be a text is none. -/
  | notText
  /-- A seed that is a text cannot be written out. -/
  | notEncodable (reason : String)
  /-- A setting, or a field of an entry, cannot be used for what it is needed for. -/
  | wrongType
  /-- A setting that reports show cannot be shown. -/
  | unshowable
  /-- A field of an entry is a number that is too large. -/
  | tooLarge
deriving DecidableEq

/-- A line of descent that draws from a source of type `σ`. -/
structure Descent (σ : Type) where
  clock : Clock
  config : Config
  source : σ
  archive : Archive
  folder : Folder
  /-- The number of the current generation. -/
  generation : Nat := 0
  /-- The lines that have been reported. -/
  printed : Array String := #[]

/-- Computations on a line of descent. -/
abbrev Descending (σ α : Type) := ExceptT DescentError (StateM (Descent σ)) α

namespace Descent

variable {σ α : Type}

/-- A new line of descent, with the archive that its settings name. -/
def start [Host] (clock : Clock) (config : Config) (source : σ) (folder : Folder) :
    Except DescentError (Descent σ) :=
  match Archive.openAt clock.timestamp folder (config.value .lineagePath) with
  | .error e => .error (.archive e)
  | .ok (archive, lines) =>
    .ok { clock, config, source, archive, folder, printed := lines.toArray }

/-- Report lines as they are. -/
def say (lines : List String) : Descending σ Unit :=
  modify fun d => { d with printed := d.printed ++ lines }

/-- Report a line with the time. -/
def log (message : String) : Descending σ Unit := do
  say [s!"[{(← get).clock.time}] {message}"]

/-- A value that is needed. -/
def need (value : Option α) : Descending σ α :=
  match value with
  | some a => pure a
  | none => throw .wrongType

/-- A datum as a report shows it. -/
def told (datum : Datum) : Descending σ String :=
  if datum.isShowable then pure datum.text else throw .unshowable

/-- A step on a piece. -/
def onPiece (step : Except PieceError α) : Descending σ α :=
  match step with
  | .ok a => pure a
  | .error e => throw (.piece e)

/-- A setting in use. -/
def fromSetting (setting : Except DescentError α) : Descending σ α :=
  match setting with
  | .ok a => pure a
  | .error e => throw e

/-- A step that draws from the source. -/
def drawing (step : Piece.Drawing σ α) : Descending σ α :=
  fun d =>
    match step d.source with
    | (.ok a, source) => (.ok a, { d with source })
    | (.error e, source) => (.error (.piece e), { d with source })

end Descent

/-! ## The first piece -/

namespace Config

/-- The settings of new pieces of a kind. -/
def pieceOptions (config : Config) : Kind → PieceOptions
  | .tape =>
    { inputText := some (config.value .inputText), pixelSize := some (config.value .pixelSize) }
  | .beat => { width := some (config.value .width), height := some (config.value .height) }

/-- The text that a list of letters spells. What is not a single letter is left out. -/
def spelled (letters : List Datum) : Except DescentError Text.Codes :=
  if letters.all Datum.isKey then
    .ok ((letters.filterMap Datum.codes?).filter (·.length == 1)).flatten
  else .error .wrongType

/-- The text of a tape program that a datum gives. It may be given letter by letter, and bytes are no
letters. -/
def tapeText : Datum → Except DescentError Text.Codes
  | .str text => .ok (Text.codesOf text)
  | .rawText codes => .ok codes
  | .bytes _ => .ok []
  | .list letters => spelled letters
  | .set letters => spelled letters
  | .map entries => spelled (entries.map Prod.fst)
  | _ => .error .wrongType

/-- The text of a formula that a datum gives. Bytes give one only if they are all blanks. -/
def beatText : Datum → Except DescentError Text.Codes
  | .str text => .ok (Text.codesOf text)
  | .rawText codes => .ok codes
  | .bytes octets =>
    if octets.all fun byte => Decimal.isPlainBlank (Char.ofNat byte.toNat) then .ok []
    else .error .wrongType
  | _ => .error .notText

/-- The text of a program that a datum gives. -/
def programText : Kind → Datum → Except DescentError Text.Codes
  | .tape => tapeText
  | .beat => beatText

end Config

namespace Descent

variable {σ : Type}

/-- The first piece: of the program that the settings give, or of a random one. -/
def initialPiece [Host] [Draw.Source σ] : Descending σ Piece := do
  let config := (← get).config
  let kind ← need config.kind?
  let options := config.pieceOptions kind
  if config.isSet .program then
    let text ← fromSetting (Config.programText kind (config.value .program))
    onPiece (Piece.ofText kind text options)
  else
    drawing (Piece.random kind (config.value .programLength) (config.isSet .includeIo) options)

/-! ## Advancing -/

/-- A piece after a number of frames. What was reached before a failing frame is kept. -/
def frames [Host] (speed : Datum) : Nat → Piece → Piece × Option PieceError
  | 0, piece => (piece, none)
  | n + 1, piece =>
    match piece.update speed {} with
    | (piece, none) => frames speed n piece
    | (piece, some e) => (piece, some e)

/-- The speed of a piece: the steps of a frame for a tape, and the distance of frames for a formula. -/
def speedOf (config : Config) : Piece → Datum
  | .tape _ => config.value .stepLimit
  | .beat _ => config.value .speed

/-- A piece after the frames of one generation, from its first frame on, and its interest then. -/
def advance [Host] (config : Config) (piece : Piece) : Piece × Except DescentError Float :=
  match config.whole? .framesPerGeneration with
  | none => (piece.reset, .error .wrongType)
  | some count =>
    match frames (speedOf config piece) count.toNat piece.reset with
    | (piece, none) => (piece, .ok piece.score)
    | (piece, some e) => (piece, .error (.piece e))

/-- The piece and its interest after the frames of one generation. -/
def advanced [Host] (piece : Piece) : Descending σ (Piece × Float) := do
  match advance (← get).config piece with
  | (piece, .ok interest) => return (piece, interest)
  | (_, .error e) => throw e

/-! ## The next piece -/

/-- Whether an interest reaches the least one that is wanted. -/
def isInteresting (config : Config) (interest : Float) : Descending σ Bool :=
  need ((config.value .minInterest).atMost? (.float interest))

/-- Mutate the parent until a child is interesting, `retries` more times at most, and take the last
child. -/
def spawnFrom [Host] [Draw.Source σ] (config : Config) (chance : Float) (parent : Piece) (attempt : Nat) :
    (retries : Nat) → Descending σ (Piece × Float)
  | 0 => do
    let child ← drawing (parent.mutate chance)
    let (child, interest) ← advanced child
    if !(← isInteresting config interest) then logDull attempt interest
    return (child, interest)
  | retries + 1 => do
    let child ← drawing (parent.mutate chance)
    let (child, interest) ← advanced child
    if ← isInteresting config interest then return (child, interest)
    logDull attempt interest
    spawnFrom config chance parent (attempt + 1) retries
where
  /-- Report a child that is not interesting. -/
  logDull (attempt : Nat) (interest : Float) : Descending σ Unit :=
    log s!"↩️ Mutant {attempt} too dull ({Decimal.places 3 interest}), retrying"

/-- The next piece after a parent, and its interest. -/
def spawn [Host] [Draw.Source σ] (parent : Piece) : Descending σ (Piece × Float) := do
  let config := (← get).config
  let retries ← need (config.whole? .maxRetries)
  let chance ← need (config.value .mutationChance).toFloat?
  spawnFrom config chance parent 1 retries.toNat

end Descent

end ProgramArt
