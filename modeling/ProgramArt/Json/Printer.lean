import ProgramArt.Datum.Basic

/-!
# JSON, written

A datum is written with two blanks of indentation for each level, one item a line, and with every character outside
the printable ones of ASCII as an escape. A mapping's keys are texts: a number, a truth value or nothing is written as
its text.
-/

namespace ProgramArt.Json

/-- An escape of four digits. -/
def unitEscape (unit : Nat) : List Char :=
  '\\' :: 'u' :: Text.hexDigits 4 unit

/-- A character as it stands in a quoted text. Beyond the first 65536 characters it is a pair of
escapes. -/
def escape (c : Char) : List Char :=
  match c with
  | '"' => ['\\', '"']
  | '\\' => ['\\', '\\']
  | '\n' => ['\\', 'n']
  | '\r' => ['\\', 'r']
  | '\t' => ['\\', 't']
  | '\x0c' => ['\\', 'f']
  | '\x08' => ['\\', 'b']
  | c =>
    let code := c.toNat
    if ' ' ≤ c ∧ c ≤ '~' then [c]
    else if code < 0x10000 then unitEscape code
    else
      let beyond := code - 0x10000
      unitEscape (0xd800 + beyond / 0x400) ++ unitEscape (0xdc00 + beyond % 0x400)

/-- A text in quotes. -/
def string (text : String) : String :=
  String.ofList ('"' :: text.toList.flatMap escape ++ ['"'])

/-- A code point as it stands in a quoted text. Half a surrogate pair is an escape of its own. -/
def escapeCode (code : Nat) : List Char :=
  if Text.isHalf code then unitEscape code else escape (Char.ofNat code)

/-- Code points in quotes. -/
def codesString (codes : List Nat) : String :=
  String.ofList ('"' :: codes.flatMap escapeCode ++ ['"'])

/-- A double: the shortest digits that read back, or the name of what is no finite number. -/
def number (x : Float) : String :=
  match Binary64.parts x with
  | .nan => "NaN"
  | .infinite false => "Infinity"
  | .infinite true => "-Infinity"
  | .finite .. => Decimal.Layout.value.format x

/-- Numbers, truth values and nothing. -/
def scalar : Datum → String
  | .bool true => "true"
  | .bool false => "false"
  | .int value => toString value
  | .float value => number value
  | .nan _ => number Binary64.nan
  | _ => "null"

/-- A key. -/
def key : Datum → String
  | .str text => string text
  | .rawText codes => codesString codes
  | datum => string (scalar datum)

/-- A line break and the indentation of a level. -/
def newline (level : Nat) : String :=
  "\n" ++ String.ofList (List.replicate (2 * level) ' ')

/-- Items between brackets, each on a line of its own. -/
def block (opening closing : String) (level : Nat) (items : List String) : String :=
  if items.isEmpty then opening ++ closing
  else
    opening ++ newline (level + 1) ++ String.intercalate ("," ++ newline (level + 1)) items ++
      newline level ++ closing

mutual

/-- A datum at a level of indentation. -/
def printAt (level : Nat) : Datum → String
  | .str text => string text
  | .rawText codes => codesString codes
  | .list items => block "[" "]" level (printItems (level + 1) items)
  | .map entries => block "\x7b" "\x7d" level (printEntries (level + 1) entries)
  | datum => scalar datum

/-- The items of a list. -/
def printItems (level : Nat) : List Datum → List String
  | [] => []
  | item :: rest => printAt level item :: printItems level rest

/-- The entries of a mapping. -/
def printEntries (level : Nat) : List (Datum × Datum) → List String
  | [] => []
  | (name, value) :: rest =>
    (key name ++ ": " ++ printAt level value) :: printEntries level rest

end

/-- A document. -/
def print (datum : Datum) : String :=
  printAt 0 datum

end ProgramArt.Json
