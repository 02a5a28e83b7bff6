import ProgramArt.Datum.Basic
import ProgramArt.Decimal.Typed
import ProgramArt.Text.Lines

/-!
# Options of the command line

An option is a name after two dashes. Most options take a value, which is the next word or stands behind an equals
sign; the others are switches. A name may be cut short as long as only one option starts so. A word that starts with a
dash is a value only if it is a negative number, holds a blank, or is the dash alone. If an option comes twice, the
later value counts.
-/

namespace ProgramArt.CommandLine

/-! ## The options -/

/-- The options. -/
inductive OptionName where
  | help
  | config
  | kind
  | program
  | length
  | mutationChance
  | gens
  | frames
  | speed
  | size
  | stepLimit
  | minInterest
  | seed
  | noParallel
  | out
  | lineage
  | debug
deriving DecidableEq

/-- What an option takes. -/
inductive ValueForm where
  /-- Nothing: the option is a switch. -/
  | nothing
  | text
  | whole
  | number
  | choice (choices : List String)

namespace OptionName

/-- All options. -/
def all : List OptionName :=
  [help, config, kind, program, length, mutationChance, gens, frames, speed, size, stepLimit,
    minInterest, seed, noParallel, out, lineage, debug]

/-- The word of an option. -/
def word : OptionName → String
  | help => "--help"
  | config => "--config"
  | kind => "--kind"
  | program => "--program"
  | length => "--length"
  | mutationChance => "--mutation-chance"
  | gens => "--gens"
  | frames => "--frames"
  | speed => "--speed"
  | size => "--size"
  | stepLimit => "--step-limit"
  | minInterest => "--min-interest"
  | seed => "--seed"
  | noParallel => "--no-parallel"
  | out => "--out"
  | lineage => "--lineage"
  | debug => "--debug"

/-- What an option takes. -/
def form : OptionName → ValueForm
  | help | noParallel | debug => .nothing
  | config | program | out | lineage => .text
  | kind => .choice ["brainfuck", "bytebeat"]
  | length | gens | frames | speed | size | stepLimit | seed => .whole
  | mutationChance | minInterest => .number

/-- The option of a word. -/
def ofWord? (text : String) : Option OptionName :=
  all.find? fun o => o.word == text

/-- The options whose words start like this. -/
def startingWith (text : String) : List OptionName :=
  all.filter fun o => text.toList.isPrefixOf o.word.toList

end OptionName

/-! ## Words -/

/-- Why reading the options ends early. -/
inductive Stop where
  /-- The options are not used as they should be. -/
  | usage
  /-- Help is asked for. -/
  | help
deriving DecidableEq

/-- What a word of the command line is. -/
inductive Word where
  | value (text : String)
  | option (name : OptionName) (explicit : Option String)
  /-- A word that looks like an option, but is none, or the mark after which all words are values. -/
  | stray
deriving DecidableEq

/-- A word before and after its first equals sign. -/
def splitEquals (text : List Char) : String × Option String :=
  (String.ofList (text.takeWhile (· != '=')),
    match text.dropWhile (· != '=') with
    | _ :: rest => some (String.ofList rest)
    | [] => none)

/-- Whether a word is a negative number: digits of any script after the dash, with a point in front of
the last of them at most. A line feed at the end does not count. -/
def isNegativeNumber (text : List Char) : Bool :=
  match Text.dropFeed text with
  | '-' :: rest =>
    let whole := rest.takeWhile Text.isDecimalDigit
    match rest.dropWhile Text.isDecimalDigit with
    | [] => !whole.isEmpty
    | '.' :: fraction => !fraction.isEmpty && fraction.all Text.isDecimalDigit
    | _ => false
  | _ => false

/-- The short word for help, possibly repeated after one dash. -/
def isShortHelp : List Char → Bool
  | '-' :: rest => !rest.isEmpty && rest.all (· == 'h')
  | _ => false

/-- What a word is that starts with a dash and is no option as it stands. -/
def ofDashed (chars : List Char) : Except Stop Word :=
  let text := String.ofList chars
  let (name, explicit) := splitEquals chars
  let fallback : Word :=
    if isNegativeNumber chars || chars.contains ' ' then .value text else .stray
  match chars with
  | '-' :: '-' :: _ =>
    match OptionName.ofWord? name, OptionName.startingWith name with
    | some o, _ => .ok (.option o explicit)
    | none, [o] => .ok (.option o explicit)
    | none, [] => .ok fallback
    | none, _ => .error .usage
  | '-' :: 'h' :: rest => .ok (.option .help (some (String.ofList rest)))
  | _ => .ok fallback

/-- What a word is. -/
def Word.ofArgument (text : String) : Except Stop Word :=
  let chars := text.toList
  match OptionName.ofWord? text with
  | some o => .ok (.option o none)
  | none =>
    if isShortHelp chars then .ok (.option .help none)
    else if chars.head? == some '-' && 1 < chars.length then ofDashed chars
    else .ok (.value text)

/-- What the words are. After two dashes alone, all words are values. -/
def classify : List String → Except Stop (List Word)
  | [] => .ok []
  | "--" :: rest => .ok (.stray :: rest.map .value)
  | text :: rest => do
    let word ← Word.ofArgument text
    return word :: (← classify rest)

/-! ## Options -/

/-- The options that are given, each with its value; those that count come first. -/
structure Options where
  given : List (OptionName × Datum) := []

namespace Options

/-- The value of an option. -/
def get? (options : Options) (name : OptionName) : Option Datum :=
  options.given.lookup name

/-- Whether an option is given. -/
def has (options : Options) (name : OptionName) : Bool :=
  (options.get? name).isSome

/-- Give an option a value, in the place of any other. -/
def put (options : Options) (name : OptionName) (value : Datum) : Options :=
  ⟨(name, value) :: options.given⟩

@[simp]
theorem get?_put_self (options : Options) (name : OptionName) (value : Datum) :
    (options.put name value).get? name = some value := by
  simp [get?, put]

/-- The value of a text that an option takes. -/
def valueOf? (form : ValueForm) (text : String) : Option Datum :=
  match form with
  | .nothing => none
  | .text => some (.str text)
  | .whole => (Decimal.typedWhole? text).map .int
  | .number => (Decimal.typedNumber? text).map .float
  | .choice choices => if choices.contains text then some (.str text) else none

/-- Give an option the value of a text. -/
def putText (options : Options) (name : OptionName) (text : String) : Except Stop Options :=
  match valueOf? name.form text with
  | some value => .ok (options.put name value)
  | none => .error .usage

/-- Give an option what stands behind its equals sign. Two dashes there are no value, and the option gets
an empty list of values. -/
def putExplicit (options : Options) (name : OptionName) (text : String) : Except Stop Options :=
  if text == "--" then .ok (options.put name (.list [])) else options.putText name text

/-- Read the words one after the other. A word that belongs to no option is an error, which is found at
the end. -/
def read (options : Options) (stray : Bool) : List Word → Except Stop Options
  | [] => if stray then .error .usage else .ok options
  | .value _ :: rest | .stray :: rest => read options true rest
  | .option name explicit :: rest =>
    match name.form, explicit with
    | .nothing, some _ => .error .usage
    | .nothing, none =>
      if name = .help then .error .help else read (options.put name (.bool true)) stray rest
    | _, some text => do read (← options.putExplicit name text) stray rest
    | _, none =>
      match rest with
      | .value text :: rest => do read (← options.putText name text) stray rest
      | _ => .error .usage

/-- The options of a command line. -/
def parse (arguments : List String) : Except Stop Options := do
  read {} false (← classify arguments)

/-- The settings that the options give, by name. -/
def settings (options : Options) : List (String × Datum) :=
  let value (name : OptionName) : Datum := (options.get? name).getD .null
  [("kind", value .kind), ("program", value .program), ("program_length", value .length),
    ("mutation_chance", value .mutationChance), ("generations", value .gens),
    ("frames_per_generation", value .frames), ("speed", value .speed), ("width", value .size),
    ("height", value .size), ("step_limit", value .stepLimit),
    ("min_interest", value .minInterest), ("seed", value .seed), ("output_dir", value .out),
    ("lineage_path", value .lineage)]
    ++ if options.has .noParallel then [("parallel", .bool false)] else []

/-- The path of the configuration file. -/
def configPath? (options : Options) : Option String :=
  match options.get? .config with
  | some (.str path) => if path == "" then none else some path
  | _ => none

end Options

end ProgramArt.CommandLine
