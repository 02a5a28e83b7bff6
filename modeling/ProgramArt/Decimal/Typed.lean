import ProgramArt.Decimal.Reader
import ProgramArt.Text.Blank
import ProgramArt.Text.Code
import ProgramArt.Text.Digit

/-!
# Numbers as they are typed

A number that somebody has typed may have blanks around it, single underscores between its digits, and digits of any
script (`plainDigits`).
-/

namespace ProgramArt.Decimal

/-- Why a text is no number. -/
inductive NumeralError where
  /-- It is no whole number in the given base. -/
  | notWhole (base : Nat) (codes : List Nat)
  /-- It is a whole number of too many digits. -/
  | tooLong (digits : Nat)
  /-- It is no double. -/
  | notNumber (codes : List Nat)
deriving DecidableEq

/-- The most decimal digits of a whole number that is read or shown. -/
def maxDigits : Nat := 4300

/-- The most characters of a text that the message about a whole number shows. -/
def maxShown : Nat := 200

/-- The message of an error. -/
def NumeralError.message : NumeralError → String
  | notWhole base codes =>
    let shown := String.ofList ((Text.quotedCodes codes).toList.take maxShown)
    s!"invalid literal for int() with base {base}: {shown}"
  | tooLong digits =>
    s!"Exceeds the limit ({maxDigits} digits) for integer string conversion: value has {digits} digits;"
      ++ " use sys.set_int_max_str_digits() to increase the limit"
  | notNumber codes => "could not convert string to float: " ++ Text.quotedCodes codes

/-- Whether a character is a plain decimal digit. -/
def isDigit (c : Char) : Bool := '0' ≤ c && c ≤ '9'

/-- Whether a character is a plain blank, which may stand around a number. -/
def isPlainBlank (c : Char) : Bool := c == ' ' || ('\t' ≤ c && c ≤ '\r')

/-- A character with its script forgotten: digits and blanks become plain ones. -/
def plainDigit (c : Char) : Char :=
  if c.toNat < 128 then c
  else if Text.isBlank c.toNat then ' '
  else
    match Text.digitValue? c with
    | some value => Nat.digitChar value
    | none => '?'

/-- A text with plain digits and without the blanks around it. -/
def plainDigits (codes : List Nat) : List Char :=
  let plain := (codes.map fun code => plainDigit (Text.charOf code)).dropWhile isPlainBlank
  (plain.reverse.dropWhile isPlainBlank).reverse

/-! ## Whole numbers -/

/-- The letter that may stand after a zero in front of a numeral in a base. -/
def baseLetter? : Nat → Option Char
  | 2 => some 'b'
  | 8 => some 'o'
  | 16 => some 'x'
  | _ => none

/-- A numeral without the mark of its base, which an underscore may follow. -/
def dropBaseMark (base : Nat) (text : List Char) : List Char :=
  match text with
  | '0' :: letter :: rest =>
    if baseLetter? base == some letter.toLower then
      match rest with
      | '_' :: rest => rest
      | rest => rest
    else text
  | text => text

/-- Whether underscores stand only between other characters, one at a time. -/
def singleGaps (text : List Char) : Bool :=
  text.head? != some '_' && text.getLast? != some '_'
    && !(text.zip text.tail).any fun (a, b) => a == '_' && b == '_'

/-- The whole number that is typed in a base. Only decimal numerals have a greatest length. -/
def wholeIn (base : Nat) (codes : List Nat) : Except NumeralError Int :=
  let failure := NumeralError.notWhole base codes
  let (negative, body) := splitSign (plainDigits codes)
  let body := dropBaseMark base body
  let numeral := body.takeWhile fun c => c == '_' || (digit? base c).isSome
  let digits := numeral.filter (· != '_')
  if numeral.isEmpty || !singleGaps numeral then .error failure
  else if base == 10 && maxDigits < digits.length then .error (.tooLong digits.length)
  else if numeral.length < body.length then .error failure
  else
    match natural? base digits with
    | some magnitude => .ok (signed negative magnitude)
    | none => .error failure

/-- A whole number as it is typed. -/
def typedWhole? (text : String) : Option Int := (wholeIn 10 (Text.codesOf text)).toOption

/-! ## Doubles -/

/-- A text without its underscores, each of which has to stand between two digits. -/
def joinDigits? (afterDigit : Bool) : List Char → Option (List Char)
  | [] => some []
  | '_' :: rest =>
    if afterDigit && rest.head?.any isDigit then joinDigits? false rest else none
  | c :: rest => (joinDigits? (isDigit c) rest).map (c :: ·)

/-- The doubles that are typed as names, in small letters. -/
def namedNumbers : List (String × Float) :=
  [("inf", Binary64.infinity false), ("infinity", Binary64.infinity false), ("nan", Binary64.nan)]

/-- The double that is typed. -/
def number (codes : List Nat) : Except NumeralError Float :=
  let body := plainDigits codes
  let (negative, unsigned) := splitSign body
  match namedNumbers.lookup (String.ofList (unsigned.map Char.toLower)) with
  | some x => .ok (if negative then -x else x)
  | none =>
    match (joinDigits? false body).bind number? with
    | some number => .ok number.toFloat
    | none => .error (.notNumber codes)

/-- A double as it is typed. -/
def typedNumber? (text : String) : Option Float := (number (Text.codesOf text)).toOption

end ProgramArt.Decimal
