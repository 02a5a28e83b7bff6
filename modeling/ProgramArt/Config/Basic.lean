import ProgramArt.Datum.Depth
import ProgramArt.Datum.Order
import ProgramArt.Host
import ProgramArt.Piece.Basic

/-!
# Settings of a run

A configuration gives a value to every `Setting`. The values are not typed; the ranges of those that are compared with
numbers are checked once (`Config.check`), when the configuration is made, and a value that is no number fails there.
What a setting is used for decides the rest, when it is used.
-/

namespace ProgramArt

/-! ## Settings -/

/-- The settings of a run. -/
inductive Setting where
  | kind
  | program
  | programLength
  | mutationChance
  | generations
  | framesPerGeneration
  | speed
  | width
  | height
  | pixelSize
  | inputText
  | includeIo
  | stepLimit
  | minInterest
  | maxRetries
  | seed
  | parallel
  | processes
  | outputDir
  | lineagePath
deriving DecidableEq

namespace Setting

/-- All settings, in the order in which they are listed. -/
def all : List Setting :=
  [kind, program, programLength, mutationChance, generations, framesPerGeneration, speed, width,
    height, pixelSize, inputText, includeIo, stepLimit, minInterest, maxRetries, seed, parallel,
    processes, outputDir, lineagePath]

theorem mem_all (s : Setting) : s ∈ all := by
  cases s <;> decide

/-- The name of a setting. -/
def name : Setting → String
  | kind => "kind"
  | program => "program"
  | programLength => "program_length"
  | mutationChance => "mutation_chance"
  | generations => "generations"
  | framesPerGeneration => "frames_per_generation"
  | speed => "speed"
  | width => "width"
  | height => "height"
  | pixelSize => "pixel_size"
  | inputText => "input_text"
  | includeIo => "include_io"
  | stepLimit => "step_limit"
  | minInterest => "min_interest"
  | maxRetries => "max_retries"
  | seed => "seed"
  | parallel => "parallel"
  | processes => "processes"
  | outputDir => "output_dir"
  | lineagePath => "lineage_path"

/-- The value that a setting has unless another is given. -/
def initial : Setting → Datum
  | kind => .str Kind.beat.name
  | program => .null
  | programLength => .int 20
  | mutationChance => .float (3.0 / 20.0)
  | generations => .int 10
  | framesPerGeneration => .int 1
  | speed => .int 1
  | width => .int defaultSide
  | height => .int defaultSide
  | pixelSize => .int defaultPixelSize
  | inputText => .str defaultInputText
  | includeIo => .bool false
  | stepLimit => .int 10000
  | minInterest => .float 0.0
  | maxRetries => .int 5
  | seed => .null
  | parallel => .bool true
  | processes => .null
  | outputDir => .null
  | lineagePath => .null

/-- Whether a key is the name of a setting. -/
def isName (key : Datum) : Bool :=
  all.any fun s => (Datum.str s.name).same key

end Setting

/-! ## Configurations -/

/-- A value for every setting. -/
structure Config where
  value : Setting → Datum

/-- What is wrong with a configuration. -/
inductive ConfigError where
  /-- A kind of pieces that does not exist, as messages show it. -/
  | unknownKind (shown : String)
  | negativeLength
  | chanceOutOfRange
  | sizeNotPositive
  | pixelSizeNotPositive
  | negativeCount
  | negativeStepLimit
  | negativeRetries
  /-- Keys that name no setting, as messages show them. -/
  | unknownKeys (shown : String)
  /-- A value that cannot be compared with a number, or keys that cannot be compared. -/
  | wrongType
  /-- A kind or keys that messages cannot show. -/
  | unshowable
deriving DecidableEq

/-- The report of what is wrong, where it has a text of its own. -/
def ConfigError.message? : ConfigError → Option String
  | unknownKind shown => some s!"kind must be one of ('brainfuck', 'bytebeat'), got {shown}"
  | negativeLength => some "program_length must be non-negative"
  | chanceOutOfRange => some "mutation_chance must be within [0, 1]"
  | sizeNotPositive => some "width and height must be positive"
  | pixelSizeNotPositive => some "pixel_size must be positive"
  | negativeCount => some "generations and frames_per_generation must be non-negative"
  | negativeStepLimit => some "step_limit must be non-negative"
  | negativeRetries => some "max_retries must be non-negative"
  | unknownKeys shown => some s!"Unknown config keys: {shown}"
  | wrongType => none
  | unshowable => some Datum.unshowable

namespace Config

/-- The settings with their values, in order. -/
def entries (config : Config) : List (Datum × Datum) :=
  Setting.all.map fun s => (.str s.name, config.value s)

/-- The configuration in which nothing is given. -/
def initial : Config := ⟨Setting.initial⟩

/-- The kind of pieces that a configuration names. -/
def kind? (config : Config) : Option Kind :=
  match config.value .kind with
  | .str name => Kind.ofName? name
  | _ => none

/-! ## Ranges -/

/-- The answer of a comparison, if there is one. -/
def compared (answer : Option Bool) : Except ConfigError Bool :=
  match answer with
  | some b => .ok b
  | none => .error .wrongType

/-- Refuse a setting that is less than zero. -/
def refuseNegative (config : Config) (s : Setting) (e : ConfigError) : Except ConfigError Unit := do
  if ← compared ((config.value s).less? (.int 0)) then throw e

/-- Refuse a setting that is not above zero. NaN is not refused. -/
def refuseNotPositive (config : Config) (s : Setting) (e : ConfigError) :
    Except ConfigError Unit := do
  if ← compared ((config.value s).atMost? (.int 0)) then throw e

/-- Refuse a chance outside of the unit interval. -/
def checkChance (config : Config) : Except ConfigError Unit := do
  let chance := config.value .mutationChance
  if !(← compared (Datum.atMost? (.float 0.0) chance)) then throw .chanceOutOfRange
  if !(← compared (chance.atMost? (.float 1.0))) then throw .chanceOutOfRange

/-- A datum as a message shows it. -/
def shown (datum : Datum) : Except ConfigError String :=
  if datum.isShowable then .ok datum.shown else .error .unshowable

/-- Check the ranges of all settings that have one. -/
def check (config : Config) : Except ConfigError Unit := do
  if config.kind?.isNone then throw (.unknownKind (← shown (config.value .kind)))
  config.refuseNegative .programLength .negativeLength
  config.checkChance
  config.refuseNotPositive .width .sizeNotPositive
  config.refuseNotPositive .height .sizeNotPositive
  config.refuseNotPositive .pixelSize .pixelSizeNotPositive
  config.refuseNegative .generations .negativeCount
  config.refuseNegative .framesPerGeneration .negativeCount
  config.refuseNegative .stepLimit .negativeStepLimit
  config.refuseNegative .maxRetries .negativeRetries

/-- The configuration that gives these values to the settings named by the keys. -/
def ofEntries (given : List (Datum × Datum)) : Except ConfigError Config := do
  let unknown := given.filterMap fun (key, _) => if Setting.isName key then none else some key
  if !unknown.isEmpty then
    match Datum.sort? unknown with
    | some sorted => throw (.unknownKeys (← shown (.list sorted)))
    | none => throw .wrongType
  let config : Config := ⟨fun s => (Datum.lookup? (.str s.name) given).getD s.initial⟩
  config.check
  return config

/-- Whether a configuration has a record: no value of it is nested too deeply. -/
def isRecordable [Host] (config : Config) : Bool :=
  Setting.all.all fun s => (config.value s).isWithin Host.settingDepth

/-- Whether a configuration can be shown: no integer in it has too many digits. -/
def isShowable (config : Config) : Bool :=
  Setting.all.all fun s => (config.value s).isShowable

/-- Whether a configuration is what its own entries give. -/
def roundTrips (config : Config) : Bool :=
  match ofEntries config.entries with
  | .ok again => Setting.all.all fun s => (again.value s).identical (config.value s)
  | .error _ => false

/-! ## Settings in use -/

/-- A setting as a whole number; truth values count as one and zero. -/
def whole? (config : Config) (s : Setting) : Option Int :=
  match config.value s with
  | .int n => some n
  | .bool b => some (if b then 1 else 0)
  | _ => none

/-- A setting as a text. -/
def text? (config : Config) (s : Setting) : Option String :=
  match config.value s with
  | .str text => some text
  | _ => none

/-- Whether a setting is there. -/
def isSet (config : Config) (s : Setting) : Bool :=
  (config.value s).isTrue

end Config

end ProgramArt
