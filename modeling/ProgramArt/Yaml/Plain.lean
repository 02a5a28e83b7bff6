import ProgramArt.Datum.Order
import ProgramArt.Decimal.Typed
import ProgramArt.Text.Lines
import ProgramArt.Text.Small
import ProgramArt.Text.Split
import ProgramArt.Yaml.Cursor

/-!
# What scalars stand for

A plain scalar is nothing, a truth value, a number, a date or a text, by the way it is written (`plainKind`). Integers
may be binary, octal, hexadecimal or in base sixty; a double needs a point, and its exponent a sign. Underscores
separate digits. A tag may say what a node is instead.
-/

namespace ProgramArt.Yaml

open ProgramArt.Decimal (isDigit)

/-- What a node can be. -/
inductive Kind where
  | null
  | bool
  | int
  | float
  | timestamp
  | binary
  | text
  /-- The key that stands for the entries of other mappings. -/
  | merge
  /-- The key of the scalar that a mapping stands for. -/
  | value
  /-- A mark of the format itself, which stands for nothing. -/
  | mark
  | sequence
  | mapping
  | set
  | pairs
deriving DecidableEq

/-- The beginning of the tags of the standard kinds. -/
def standardTags : String := "tag:yaml.org,2002:"

/-- The ends of the tags of the standard kinds. -/
def kindNames : List (String × Kind) :=
  [("null", .null), ("bool", .bool), ("int", .int), ("float", .float), ("timestamp", .timestamp),
    ("binary", .binary), ("str", .text), ("merge", .merge), ("value", .value), ("yaml", .mark),
    ("seq", .sequence), ("map", .mapping), ("set", .set), ("omap", .pairs), ("pairs", .pairs)]

/-- The kind that a tag names. -/
def Kind.ofTag? (tag : String) : Option Kind :=
  kindNames.findSome? fun (name, kind) => if tag == standardTags ++ name then some kind else none

/-! ## Forms -/

/-- Whether a character is a decimal digit or separates digits. -/
def isDigitOrGap (c : Char) : Bool := isDigit c || c == '_'

/-- A text without the sign in front of it. -/
def unsigned (text : List Char) : List Char :=
  (Decimal.splitSign text).2

/-- The words for truth values. -/
def truthWords : List (String × Bool) :=
  [("yes", true), ("no", false), ("true", true), ("false", false), ("on", true), ("off", false)]

/-- A word in small letters, with a capital, and in capitals. -/
def spellings (word : String) : List String :=
  [word, word.capitalize, word.toUpper]

/-- Whether a text is a word for a truth value. -/
def isTruthWord (text : String) : Bool :=
  truthWords.any fun (word, _) => (spellings word).contains text

/-- Whether a text stands for nothing. -/
def isNullWord (text : String) : Bool :=
  text == "" || text == "~" || (spellings "null").contains text

/-- Whether a text is at least one character, all of a class. -/
def isRun (p : Char → Bool) (text : List Char) : Bool :=
  !text.isEmpty && text.all p

/-- Whether a text is a number below sixty of one or two digits. -/
def isSixtieth : List Char → Bool
  | [a] => isDigit a
  | [a, b] => '0' ≤ a && a ≤ '5' && isDigit b
  | _ => false

/-- The parts of a text between colons. -/
def colonParts (text : List Char) : List (List Char) :=
  Text.parts ':' text

/-- Whether a text is an integer. -/
def isInteger (text : List Char) : Bool :=
  match unsigned text with
  | ['0'] => true
  | '0' :: 'b' :: rest => isRun (fun c => c == '0' || c == '1' || c == '_') rest
  | '0' :: 'x' :: rest => isRun (fun c => (Decimal.digit? 16 c).isSome || c == '_') rest
  | '0' :: rest => isRun (fun c => ('0' ≤ c && c ≤ '7') || c == '_') rest
  | first :: rest =>
    isDigit first &&
      match colonParts rest with
      | head :: sixtieths => head.all isDigitOrGap && sixtieths.all isSixtieth
      | [] => false
  | [] => false

/-- Whether a text is nothing, or an exponent with its sign. -/
def isSignedExponent : List Char → Bool
  | [] => true
  | mark :: sign :: digits =>
    (mark == 'e' || mark == 'E') && (sign == '+' || sign == '-') && isRun isDigit digits
  | _ => false

/-- Whether a text goes on as a fraction after its point. -/
def isFraction (text : List Char) : Bool :=
  isSignedExponent (text.dropWhile isDigitOrGap)

/-- Whether a text is a double in base sixty: a numeral, then sixtieths, the last with a point. -/
def isSixtiethFloat (text : List Char) : Bool :=
  match colonParts text with
  | (first :: head) :: parts =>
    isDigit first && head.all isDigitOrGap &&
      match parts.getLast? with
      | some last =>
        parts.dropLast.all isSixtieth && isSixtieth (last.takeWhile (· != '.')) &&
          match last.dropWhile (· != '.') with
          | '.' :: rest => rest.all isDigitOrGap
          | _ => false
      | none => false
  | _ => false

/-- Whether a text is a double. -/
def isFloat (text : List Char) : Bool :=
  let body := unsigned text
  let pointed :=
    match body with
    | first :: rest =>
      isDigit first &&
        match rest.dropWhile isDigitOrGap with
        | '.' :: rest => isFraction rest
        | _ => false
    | [] => false
  let bare :=
    match text with
    | '.' :: first :: rest => isDigit first && isFraction rest
    | _ => false
  pointed || bare || isSixtiethFloat body
    || [".inf", ".Inf", ".INF"].any (body == ·.toList)
    || [".nan", ".NaN", ".NAN"].any (text == ·.toList)

/-! ## Dates and times -/

/-- The fields of a date, or of a date and a time, as they are written. -/
structure Timestamp where
  year : List Char
  month : List Char
  day : List Char
  time : Option (List Char × List Char × List Char) := none
  fraction : List Char := []
  /-- The sign, hours and minutes of the distance to universal time. -/
  zone : Option (Bool × List Char × List Char) := none

/-- Digits at the front of a text, at least and at most so many. -/
def digitsAt (least most : Nat) (text : List Char) : Option (List Char × List Char) :=
  let run := (text.take most).takeWhile isDigit
  if run.length < least then none else some (run, text.drop run.length)

/-- The rest of a text after a character. -/
def after? (c : Char) : List Char → Option (List Char)
  | first :: rest => if first = c then some rest else none
  | [] => none

/-- A date of four digits, and at least so many and at most two digits for the month and the day. -/
def plainDate? (least : Nat) (text : List Char) : Option Timestamp := do
  let (year, text) ← digitsAt 4 4 text
  let (month, text) ← digitsAt least 2 (← after? '-' text)
  let (day, text) ← digitsAt least 2 (← after? '-' text)
  if text.isEmpty then return { year, month, day } else none

/-- What stands between a date and a time. -/
def betweenDateAndTime? (text : List Char) : Option (List Char) :=
  match text with
  | first :: rest =>
    if first = 'T' ∨ first = 't' then some rest
    else if first = ' ' ∨ first = '\t' then some (rest.dropWhile fun c => c == ' ' || c == '\t')
    else none
  | [] => none

/-- The zone at the end of a time; the outer `none` is a text that is no zone. -/
def zone? (text : List Char) : Option (Option (Bool × List Char × List Char)) := do
  if text.isEmpty then return none
  match text.dropWhile fun c => c == ' ' || c == '\t' with
  | ['Z'] => return some (false, [], [])
  | sign :: rest =>
    if sign = '+' ∨ sign = '-' then
      let (hours, rest) ← digitsAt 1 2 rest
      if rest.isEmpty then return some (sign == '-', hours, [])
      let (minutes, rest) ← digitsAt 2 2 (← after? ':' rest)
      if rest.isEmpty then return some (sign == '-', hours, minutes) else none
    else none
  | [] => none

/-- A date with a time. -/
def dateTime? (text : List Char) : Option Timestamp := do
  let (year, text) ← digitsAt 4 4 text
  let (month, text) ← digitsAt 1 2 (← after? '-' text)
  let (day, text) ← digitsAt 1 2 (← after? '-' text)
  let (hour, text) ← digitsAt 1 2 (← betweenDateAndTime? text)
  let (minute, text) ← digitsAt 2 2 (← after? ':' text)
  let (second, text) ← digitsAt 2 2 (← after? ':' text)
  let (fraction, text) :=
    match text with
    | '.' :: rest => rest.span isDigit
    | text => ([], text)
  let zone ← zone? text
  return { year, month, day, time := some (hour, minute, second), fraction, zone }

/-- A text as a date, with months and days of at least so many digits, or a date with a time. -/
def timestamp? (least : Nat) (text : List Char) : Option Timestamp :=
  (plainDate? least text).orElse fun _ => dateTime? text

/-! ## Kinds -/

/-- What a plain scalar is. A line feed at its end does not count, unless it is all there is. -/
def plainKind (text : String) : Kind :=
  let chars := Text.dropFeed text.toList
  let word := String.ofList chars
  if text == "\n" then .text
  else if isTruthWord word then .bool
  else if isFloat chars then .float
  else if isInteger chars then .int
  else if word == "<<" then .merge
  else if isNullWord word then .null
  else if (timestamp? 2 chars).isSome then .timestamp
  else if word == "=" then .value
  else if word == "!" || word == "&" || word == "*" then .mark
  else .text

/-! ## Values -/

/-- A number that has been read, or the reason why there is none. -/
def orReason {α : Type} : Except Decimal.NumeralError α → Except YamlError α
  | .ok value => .ok value
  | .error e => .error (.badValue e.message)

/-- The value of digits in base sixty. -/
def sixtyfold (digits : List Int) : Int :=
  digits.foldl (fun total digit => total * 60 + digit) 0

/-- Code points without their underscores and sign, and whether the sign is a minus. -/
def magnitude (codes : List Nat) : Bool × List Nat :=
  match codes.filter (· != '_'.toNat) with
  | [] => (false, [])
  | first :: rest =>
    if first == '-'.toNat then (true, rest)
    else if first == '+'.toNat then (false, rest)
    else (false, first :: rest)

/-- The integer that code points stand for. -/
def integerOf (codes : List Nat) : Except YamlError Int := do
  let (negative, body) := magnitude codes
  let value ←
    match body.map Text.charOf with
    | [] => .error .noDigits
    | ['0'] => pure 0
    | '0' :: 'b' :: _ => orReason (Decimal.wholeIn 2 (body.drop 2))
    | '0' :: 'x' :: _ => orReason (Decimal.wholeIn 16 (body.drop 2))
    | '0' :: _ => orReason (Decimal.wholeIn 8 body)
    | _ =>
      sixtyfold <$> (Text.parts ':'.toNat body).mapM fun part => orReason (Decimal.wholeIn 10 part)
  return if negative then -value else value

/-- The value of parts in base sixty, summed from the last to the first. The powers of sixty are exact
until a part is multiplied with one, which has to be small enough for a double. -/
def sixtyfoldFloat (parts : List Float) : Except YamlError Float :=
  go parts.reverse 0.0 1
where
  /-- Add the parts to a total. -/
  go : List Float → Float → Nat → Except YamlError Float
    | [], total, _ => .ok total
    | part :: rest, total, base =>
      match Binary64.ofInt? base with
      | some factor => go rest (total + part * factor) (base * 60)
      | none => .error .tooLarge

/-- The double that code points stand for. NaN is always the same one if it is called by its name, whose
sign does not count, and otherwise it has the given mark. -/
def floatOf (mark : Nat) (codes : List Nat) : Except YamlError Datum := do
  let codes := codes.filter (· != '_'.toNat)
  if codes.isEmpty then throw .noDigits
  let (negative, body) := magnitude (Text.smallCodes codes)
  if body == Text.codesOf ".nan" then return .nan 0
  let value ←
    if body == Text.codesOf ".inf" then pure (Binary64.infinity false)
    else if body.contains ':'.toNat then
      sixtyfoldFloat
        (← (Text.parts ':'.toNat body).mapM fun part => orReason (Decimal.number part))
    else orReason (Decimal.number body)
  if value.isNaN then return .nan mark
  return .float (if negative then -value else value)

/-- The truth value of a word. -/
def boolOf (text : String) : Except YamlError Bool :=
  match truthWords.lookup text.toLower with
  | some value => .ok value
  | none => .error .notTruthWord

/-- The value of digits, where none count as zero. -/
def digitsValue (text : List Char) : Nat :=
  (Decimal.natural? 10 text).getD 0

/-- The distance of a zone to universal time in seconds, which is less than a day. -/
def zoneSeconds (negative : Bool) (hours minutes : Nat) : Except YamlError Int :=
  let distance : Int := (hours * 60 + minutes) * 60
  let seconds := if negative then -distance else distance
  if distance < 86400 then .ok seconds
  else .error (.badValue ("offset must be a timedelta strictly between -timedelta(hours=24) and "
    ++ s!"timedelta(hours=24), not {Moment.distanceForm seconds}."))

/-- The moment of a timestamp. What is wrong with the zone comes before everything else. -/
def Timestamp.moment (stamp : Timestamp) : Except YamlError Moment := do
  let clock ← stamp.time.mapM fun (hour, minute, second) => do
    let zone ← stamp.zone.mapM fun (negative, hours, minutes) =>
      zoneSeconds negative (digitsValue hours) (digitsValue minutes)
    return {
      hour := digitsValue hour
      minute := digitsValue minute
      second := digitsValue second
      micro := digitsValue ((stamp.fraction ++ List.replicate 6 '0').take 6)
      zone }
  return {
    year := digitsValue stamp.year
    month := digitsValue stamp.month
    day := digitsValue stamp.day
    clock }

/-- The date, or the date and time, that a text stands for. -/
def timestampOf (text : String) : Except YamlError Datum := do
  let some stamp := timestamp? 1 (Text.dropFeed text.toList) | throw .notDate
  let moment ← stamp.moment
  match moment.fault? with
  | some reason => throw (.badValue reason)
  | none => return .moment moment

end ProgramArt.Yaml
