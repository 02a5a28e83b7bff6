import ProgramArt.Datum.Moment
import ProgramArt.Decimal.Layout
import ProgramArt.Decimal.Typed
import ProgramArt.Text.Code

/-!
# Data

A datum is a value as settings, records and documents hold it: nothing, a truth value, an integer of any size, a
double, a text, bytes, a date or time, a list, a pair, a set, or a mapping that keeps the order in which its keys
came. Fields of settings and records are not typed in advance, so a datum of the wrong kind is a possible value and
fails only where it is used. `Datum.shown` is a datum as messages show it.
-/

namespace ProgramArt

/-- A value of settings, records and documents. -/
inductive Datum where
  | null
  | bool (value : Bool)
  | int (value : Int)
  | float (value : Float)
  /-- NaN as a document gives it. It equals nothing, but inside of collections it is found again by its
  mark. -/
  | nan (mark : Nat)
  | str (value : String)
  /-- A text in which halves of surrogate pairs stand alone, by its code points. -/
  | rawText (codes : List Nat)
  | bytes (octets : List UInt8)
  | list (items : List Datum)
  | pair (first second : Datum)
  | set (members : List Datum)
  | map (entries : List (Datum × Datum))
  /-- A list, or else a mapping, at a place inside itself. -/
  | again (isList : Bool)
  | moment (value : Moment)
deriving Inhabited

namespace Datum

/-- The name of a datum's kind. -/
def typeName : Datum → String
  | null => "NoneType"
  | bool _ => "bool"
  | int _ => "int"
  | float _ | nan _ => "float"
  | str _ | rawText _ => "str"
  | bytes _ => "bytes"
  | list _ => "list"
  | pair _ _ => "tuple"
  | set _ => "set"
  | map _ => "dict"
  | again isList => if isList then "list" else "dict"
  | moment value => value.typeName

/-- The text of code points. -/
def ofCodes (codes : List Nat) : Datum :=
  if codes.any Text.isHalf then rawText codes else str (Text.ofCodes codes)

/-- The code points of a text. -/
def codes? : Datum → Option (List Nat)
  | str value => some (Text.codesOf value)
  | rawText codes => some codes
  | _ => none

/-- Nothing, false, zero and what is empty count as absent; NaN counts as present. -/
def isTrue : Datum → Bool
  | null => false
  | bool value => value
  | int value => value != 0
  | float value => value != 0.0
  | str value => value != ""
  | rawText codes => !codes.isEmpty
  | bytes octets => !octets.isEmpty
  | list items => !items.isEmpty
  | set members => !members.isEmpty
  | map entries => !entries.isEmpty
  | nan _ | pair _ _ | again _ | moment _ => true

/-- A mapping whose keys are texts. -/
def record (entries : List (String × Datum)) : Datum :=
  .map (entries.map fun (key, value) => (.str key, value))

/-- A byte as it stands between the given quotes. -/
def escapeByte (quote : Char) (byte : UInt8) : List Char :=
  let c := Char.ofNat byte.toNat
  if byte.toNat < 128 then Text.escape quote c else '\\' :: 'x' :: Text.hexDigits 2 byte.toNat

/-- Bytes in quotes, with a letter in front of them. -/
def shownBytes (octets : List UInt8) : String :=
  let quote := Text.quoteOf (octets.map fun byte => Char.ofNat byte.toNat)
  String.ofList ('b' :: quote :: octets.flatMap (escapeByte quote) ++ [quote])

mutual

/-- A datum as messages show it. -/
def shown : Datum → String
  | null => "None"
  | bool true => "True"
  | bool false => "False"
  | int value => toString value
  | float value => Decimal.Layout.value.format value
  | nan _ => Decimal.Layout.value.format Binary64.nan
  | str value => Text.quoted value
  | rawText codes => Text.quotedCodes codes
  | bytes octets => shownBytes octets
  | list items => "[" ++ String.intercalate ", " (shownItems items) ++ "]"
  | pair first second => "(" ++ shown first ++ ", " ++ shown second ++ ")"
  | set [] => "set()"
  | set members => "\x7b" ++ String.intercalate ", " (shownItems members) ++ "\x7d"
  | map entries => "\x7b" ++ String.intercalate ", " (shownEntries entries) ++ "\x7d"
  | again isList => if isList then "[...]" else "\x7b...\x7d"
  | moment value => value.form

/-- The items of a list as messages show them. -/
def shownItems : List Datum → List String
  | [] => []
  | item :: rest => shown item :: shownItems rest

/-- The entries of a mapping as messages show them. -/
def shownEntries : List (Datum × Datum) → List String
  | [] => []
  | (key, value) :: rest => (shown key ++ ": " ++ shown value) :: shownEntries rest

end

/-- A datum as running text: a text stands for itself, and everything else is shown. -/
def text : Datum → String
  | str value => value
  | rawText codes => Text.ofCodes codes
  | datum => shown datum

mutual

/-- Whether a datum can be shown: none of its integers has too many digits. -/
def isShowable : Datum → Bool
  | int value => value.natAbs < Nat.pow 10 Decimal.maxDigits
  | list items => areShowable items
  | pair first second => isShowable first && isShowable second
  | set members => areShowable members
  | map entries => entriesShowable entries
  | _ => true

/-- Whether all of the data can be shown. -/
def areShowable : List Datum → Bool
  | [] => true
  | item :: rest => isShowable item && areShowable rest

/-- Whether all keys and values can be shown. -/
def entriesShowable : List (Datum × Datum) → Bool
  | [] => true
  | (key, value) :: rest => isShowable key && isShowable value && entriesShowable rest

end

/-- The message about a datum that cannot be shown. -/
def unshowable : String :=
  s!"Exceeds the limit ({Decimal.maxDigits} digits) for integer string conversion;"
    ++ " use sys.set_int_max_str_digits() to increase the limit"

/-- A number as a double, if it is not too large for one. -/
def toFloat? : Datum → Option Float
  | float value => some value
  | nan _ => some Binary64.nan
  | int value => Binary64.ofInt? value
  | bool value => some (if value then 1.0 else 0.0)
  | _ => none

/-- A number as a chance; one that is too large for a double is an infinity. -/
def chance? : Datum → Option Float
  | int value => some ((Binary64.ofInt? value).getD (Binary64.infinity (decide (value < 0))))
  | datum => datum.toFloat?

/-- A number with a fixed number of decimal places. -/
def places? (count : Nat) (datum : Datum) : Option String :=
  datum.toFloat?.map (Decimal.places count)

end Datum

end ProgramArt
