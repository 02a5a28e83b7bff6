import ProgramArt.Datum.Order
import ProgramArt.Decimal.Reader
import ProgramArt.Host

/-!
# JSON, read

A document is one value with blanks around it. Besides the numbers of the format, `NaN`, `Infinity` and `-Infinity`
are read. A key that comes twice keeps its first place and takes the last value. Half a surrogate pair may stand alone
in a text. Values are read with fuel for their length, and nested as deeply as the host reads them (`readValue`).
-/

namespace ProgramArt.Json

/-- How reading a document fails. -/
inductive JsonError where
  /-- The text is no document of the format. -/
  | malformed
  /-- Collections are nested too deeply. -/
  | tooDeep
deriving DecidableEq

/-- The blanks of the format. -/
def isSpace (c : Char) : Bool :=
  c == ' ' || c == '\t' || c == '\n' || c == '\r'

/-- A text without the blanks in front of it. -/
def skipSpace (text : List Char) : List Char :=
  text.dropWhile isSpace

/-! ## Named values -/

/-- The values that are written as names. -/
def names : List (List Char × Datum) :=
  [("null".toList, .null), ("true".toList, .bool true), ("false".toList, .bool false),
    ("NaN".toList, .nan 0), ("Infinity".toList, .float (Binary64.infinity false)),
    ("-Infinity".toList, .float (Binary64.infinity true))]

/-- The named value at the front of a text, and the rest. -/
def literal? (text : List Char) : Option (Datum × List Char) :=
  names.findSome? fun (name, value) =>
    if name.isPrefixOf text then some (value, text.drop name.length) else none

/-! ## Numbers -/

/-- The whole part of a number, which has no zero in front, and the rest. -/
def wholePart? : List Char → Option (List Char × List Char)
  | '0' :: rest => some (['0'], rest)
  | text =>
    let (digits, rest) := Decimal.spanDigits text
    if digits.isEmpty then none else some (digits, rest)

/-- A fraction, if there is one, with its point. -/
def fractionPart : List Char → List Char × List Char
  | '.' :: rest =>
    let (digits, after) := Decimal.spanDigits rest
    if digits.isEmpty then ([], '.' :: rest) else ('.' :: digits, after)
  | text => ([], text)

/-- An exponent, if there is one, with its mark. -/
def exponentPart (text : List Char) : List Char × List Char :=
  match text with
  | mark :: rest =>
    if mark = 'e' ∨ mark = 'E' then
      let (sign, digits) :=
        match rest with
        | '+' :: more => (['+'], more)
        | '-' :: more => (['-'], more)
        | more => ([], more)
      let (power, after) := Decimal.spanDigits digits
      if power.isEmpty then ([], text) else (mark :: sign ++ power, after)
    else ([], text)
  | [] => ([], [])

/-- A number at the front of a text. Without fraction and exponent it is an integer. -/
def readNumber? (text : List Char) : Option (Datum × List Char) := do
  let (sign, unsigned) :=
    match text with
    | '-' :: rest => (['-'], rest)
    | rest => ([], rest)
  let (whole, rest) ← wholePart? unsigned
  let (fraction, rest) := fractionPart rest
  let (power, rest) := exponentPart rest
  if fraction.isEmpty && power.isEmpty then
    if Decimal.maxDigits < whole.length then none
    else return (.int (← Decimal.integer? 10 (sign ++ whole)), rest)
  else
    let value ← Decimal.number? (sign ++ whole ++ fraction ++ power)
    return (.float value.toFloat, rest)

/-! ## Texts -/

/-- Four digits of an escape, and the rest. -/
def unit? (text : List Char) : Option (Nat × List Char) := do
  let digits := text.take 4
  if digits.length < 4 then none
  else return (← Decimal.natural? 16 digits, text.drop 4)

/-- The code point of an escape of four digits. Two halves of a pair make one. -/
def unicodeEscape? (text : List Char) : Option (Nat × List Char) := do
  let (high, rest) ← unit? text
  let pair :=
    if Text.isHighHalf high then
      match rest with
      | '\\' :: 'u' :: more =>
        (unit? more).bind fun (low, after) =>
          if Text.isLowHalf low then some (Text.pairCode high low, after) else none
      | _ => none
    else none
  return pair.getD (high, rest)

/-- The characters that an escape of one letter stands for. -/
def letterEscapes : List (Char × Char) :=
  [('"', '"'), ('\\', '\\'), ('/', '/'), ('b', '\x08'), ('f', '\x0c'), ('n', '\n'), ('r', '\r'),
    ('t', '\t')]

/-- The code point of an escape, after its backslash. -/
def escape? : List Char → Option (Nat × List Char)
  | 'u' :: rest => unicodeEscape? rest
  | letter :: rest => (letterEscapes.lookup letter).map fun c => (c.toNat, rest)
  | [] => none

/-- The code points of a quoted text after its opening quote, and the rest. Control characters are
refused. -/
def readString? (fuel : Nat) (text : List Char) (seen : List Nat) : Option (List Nat × List Char) :=
  match fuel with
  | 0 => none
  | fuel + 1 =>
    match text with
    | [] => none
    | '"' :: rest => some (seen.reverse, rest)
    | '\\' :: rest =>
      match escape? rest with
      | some (code, rest) => readString? fuel rest (code :: seen)
      | none => none
    | c :: rest => if c < ' ' then none else readString? fuel rest (c.toNat :: seen)

/-- A quoted text after its opening quote, and the rest. -/
def readText? (text : List Char) : Option (Datum × List Char) :=
  (readString? (text.length + 1) text []).map fun (codes, rest) => (.ofCodes codes, rest)

/-! ## Values -/

/-- What has been read, if anything. -/
def orMalformed {α : Type} : Option α → Except JsonError α
  | some a => .ok a
  | none => .error .malformed

variable [Host]

mutual

/-- A value at the front of a text that has no blanks there, inside `depth` collections. -/
def readValue (depth fuel : Nat) (text : List Char) : Except JsonError (Datum × List Char) :=
  match fuel with
  | 0 => .error .malformed
  | fuel + 1 =>
    match text with
    | '"' :: rest => orMalformed (readText? rest)
    | '[' :: rest =>
      if Host.documentDepth ≤ depth then .error .tooDeep
      else
        match skipSpace rest with
        | ']' :: rest => .ok (.list [], rest)
        | rest => (readItems (depth + 1) fuel rest []).map fun (items, rest) => (.list items, rest)
    | '\x7b' :: rest =>
      if Host.documentDepth ≤ depth then .error .tooDeep
      else
        match skipSpace rest with
        | '\x7d' :: rest => .ok (.map [], rest)
        | rest =>
          (readEntries (depth + 1) fuel rest []).map fun (entries, rest) => (.map entries, rest)
    | text => orMalformed ((literal? text).orElse fun _ => readNumber? text)
termination_by structural fuel

/-- The items of a list up to its closing bracket; there is at least one. -/
def readItems (depth fuel : Nat) (text : List Char) (seen : List Datum) :
    Except JsonError (List Datum × List Char) :=
  match fuel with
  | 0 => .error .malformed
  | fuel + 1 =>
    match readValue depth fuel text with
    | .error e => .error e
    | .ok (item, rest) =>
      match skipSpace rest with
      | ',' :: rest => readItems depth fuel (skipSpace rest) (item :: seen)
      | ']' :: rest => .ok ((item :: seen).reverse, rest)
      | _ => .error .malformed
termination_by structural fuel

/-- The entries of a mapping up to its closing brace; there is at least one. -/
def readEntries (depth fuel : Nat) (text : List Char) (seen : List (Datum × Datum)) :
    Except JsonError (List (Datum × Datum) × List Char) :=
  match fuel with
  | 0 => .error .malformed
  | fuel + 1 =>
    match text with
    | '"' :: rest =>
      match readText? rest with
      | none => .error .malformed
      | some (name, rest) =>
        match skipSpace rest with
        | ':' :: rest =>
          match readValue depth fuel (skipSpace rest) with
          | .error e => .error e
          | .ok (value, rest) =>
            let entries := Datum.insert name value seen
            match skipSpace rest with
            | ',' :: rest => readEntries depth fuel (skipSpace rest) entries
            | '\x7d' :: rest => .ok (entries, rest)
            | _ => .error .malformed
        | _ => .error .malformed
    | _ => .error .malformed
termination_by structural fuel

end

/-- A document: one value and nothing after it. -/
def read (text : String) : Except JsonError Datum := do
  let chars := text.toList
  let (value, rest) ← readValue 0 (2 * chars.length + 2) (skipSpace chars)
  if (skipSpace rest).isEmpty then return value else throw .malformed

end ProgramArt.Json
