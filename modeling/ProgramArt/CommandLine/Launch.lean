import ProgramArt.Beat.Narration
import ProgramArt.CommandLine.Options
import ProgramArt.Config.File
import ProgramArt.Descent.Run
import ProgramArt.Draw.Seed
import ProgramArt.Host.Standard
import ProgramArt.Lineage.Summary
import ProgramArt.Tape.Narration

/-!
# What the command line does

The options give a configuration (`configure`). From it a line of descent is run and summed up, or its first program
is traced. Mistakes in the options, the settings and the first program are reported and end the program; what goes
wrong later is a `Failure`.
-/

namespace ProgramArt

/-- A new line of descent with the generator that the settings seed; without a seed a fresh one is
taken. -/
def Descent.ofConfig [Host] (clock : Clock) (fresh : Int) (config : Config) (folder : Folder) :
    Except DescentError (Descent Draw.Twister) :=
  match config.value .seed, Draw.seedOf? fresh (config.value .seed) with
  | _, some seed => Descent.start clock config (.ofSeed seed) folder
  | .rawText codes, none => .error (.notEncodable ((Text.encodingFault? codes).getD ""))
  | _, none => .error .wrongType

namespace CommandLine

/-- What the program fails with. -/
inductive Failure where
  | config (error : ConfigFileError)
  | descent (error : DescentError)
  | tape (error : Tape.RunError)
  | beat (error : Beat.EvalError)
deriving DecidableEq

/-- How the program ends. -/
inductive Ending where
  /-- With a status, after its work. -/
  | finished (status : Nat)
  /-- With a status, because of the options. -/
  | stopped (status : Nat)
  /-- With a failure. -/
  | failed (failure : Failure)
deriving DecidableEq

/-- The end of the program, what it has reported, and the folder that it leaves. -/
structure Outcome where
  ending : Ending
  printed : List String
  folder : Folder

/-- The configuration that the options give. -/
def configure [Host] (options : Options) (folder : Folder) : Except ConfigFileError Config :=
  match options.configPath? with
  | some path => Config.ofFile folder path options.settings
  | none => Config.ofGiven options.settings

/-- What is said about a first piece that cannot be made, if it is the user's mistake. -/
def pieceMistake? [Host] : PieceError → Option String
  | .program error => some error.message
  | .text (.parse (.tooLong digits)) => some (Decimal.NumeralError.tooLong digits).message
  | .text (.parse error) => error.message?
  | .text (.compile error) => some error.message
  | .notEncodable reason => some reason
  | .sideTooLong => some "Maximum allowed dimension exceeded"
  | .tooManyPixels => some ("array is too big; `arr.size * arr.dtype.itemsize` is larger than the " ++
      "maximum possible size.")
  | _ => none

/-- Whether a failure is the user's mistake, and what is said about it. -/
def Failure.mistake? [Host] : Failure → Option String
  | config error => error.message?
  | descent (.file error) | descent (.archive (.file error)) => some error.message
  | descent (.notEncodable reason) => some reason
  | descent (.piece error) => pieceMistake? error
  | _ => none

/-- The end of a program that fails before its work: mistakes of the user are reported. -/
def refused [Host] (failure : Failure) (printed : List String) (folder : Folder) : Outcome :=
  match failure.mistake? with
  | some message => ⟨.finished 1, printed ++ [s!"❌ {message}"], folder⟩
  | none => ⟨.failed failure, printed, folder⟩

/-- The settings of a formula's trace: everything is zero. -/
def restingSample : Beat.RawSample :=
  ({} : Beat.Controls).sample (.int 0) 0 0

/-- How far around the pointer cells are shown. -/
def traceRange : Int := 10

/-- Trace the first program. -/
def trace [Host] (config : Config) (piece : Piece) : List String × Ending :=
  match piece with
  | .tape piece =>
    let limit := config.value .stepLimit
    match limit.countBelow? with
    | some budget =>
      let told := Tape.narrate piece.program .default traceRange piece.inputText budget limit.text
      match told.result with
      | .ok _ => (told.lines, .finished 0)
      | .error e => (told.lines, .failed (.tape e))
    | none => ([], .failed (.descent .wrongType))
  | .beat piece =>
    match Beat.narrate piece.program restingSample with
    | .ok (lines, _) => (lines, .finished 0)
    | .error e => ([], .failed (.beat e))

/-- The line of the best program. -/
def bestLine (results : Descent.Results) : Except Lineage.StatsError String := do
  let interest ← Lineage.threePlaces results.bestInterest
  return s!"\n🏆 Best program: {results.bestCode.text} (interest {interest})"

/-- The failure of a line of descent about which there are no numbers. -/
def ofStatsError : Lineage.StatsError → DescentError
  | .wrongType => .wrongType
  | .tooLarge => .tooLarge

/-- Run the line of descent from its first piece, and sum it up. -/
def runAndSumUp [Host] (piece : Piece) : Descending Draw.Twister Unit := do
  let results ← Descent.run (some piece)
  let summary := (← get).archive.lineage.summary
  Descent.say summary.lines
  if let some e := summary.fault then throw (ofStatsError e)
  match bestLine results with
  | .ok line => Descent.say [line]
  | .error e => throw (ofStatsError e)

/-- The whole program on a line of descent. -/
def work [Host] (options : Options) (descent : Descent Draw.Twister) : Outcome :=
  match (Descent.initialPiece : Descending Draw.Twister Piece) descent with
  | (.error e, descent) => refused (.descent e) descent.printed.toList descent.folder
  | (.ok piece, descent) =>
    if options.has .debug then
      let (lines, ending) := trace descent.config piece
      ⟨ending, descent.printed.toList ++ lines, descent.folder⟩
    else
      match runAndSumUp piece descent with
      | (.ok (), descent) => ⟨.finished 0, descent.printed.toList, descent.folder⟩
      | (.error e, descent) => ⟨.failed (.descent e), descent.printed.toList, descent.folder⟩

/-- The whole program on the words of its command line. -/
def launch [Host] (clock : Clock) (fresh : Int) (folder : Folder) (arguments : List String) : Outcome :=
  match Options.parse arguments with
  | .error .help => ⟨.stopped 0, [], folder⟩
  | .error .usage => ⟨.stopped 2, [], folder⟩
  | .ok options =>
    match configure options folder with
    | .error e => refused (.config e) [] folder
    | .ok config =>
      match Descent.ofConfig clock fresh config folder with
      | .error e => refused (.descent e) [] folder
      | .ok descent => work options descent

end CommandLine

-- what is launched runs on this host, unless another one is given
attribute [instance] Host.standard

end ProgramArt
