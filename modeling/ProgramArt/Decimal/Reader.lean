import ProgramArt.Number.Binary64

/-!
# Reading numbers

Numerals are read from lists of characters. A decimal number becomes the double nearest to it (`Number.toFloat`),
however many digits it has; one beyond the largest double becomes an infinity.
-/

namespace ProgramArt.Decimal

open ProgramArt

/-- The value of a digit in bases up to sixteen. -/
def digit? (base : Nat) (c : Char) : Option Nat :=
  let value :=
    if '0' ≤ c ∧ c ≤ '9' then some (c.toNat - '0'.toNat)
    else if 'a' ≤ c ∧ c ≤ 'f' then some (c.toNat - 'a'.toNat + 10)
    else if 'A' ≤ c ∧ c ≤ 'F' then some (c.toNat - 'A'.toNat + 10)
    else none
  value.filter (· < base)

/-- A numeral of at least one digit. -/
def natural? (base : Nat) (text : List Char) : Option Nat :=
  if text.isEmpty then none
  else text.foldl (fun total c => do return (← total) * base + (← digit? base c)) (some 0)

/-- The sign in front of a text, if it has one, and the rest. -/
def splitSign : List Char → Bool × List Char
  | '-' :: rest => (true, rest)
  | '+' :: rest => (false, rest)
  | rest => (false, rest)

/-- Apply a sign to a magnitude. -/
def signed (negative : Bool) (magnitude : Nat) : Int :=
  if negative then -(magnitude : Int) else magnitude

/-- A numeral with an optional sign. -/
def integer? (base : Nat) (text : List Char) : Option Int :=
  let (negative, rest) := splitSign text
  (natural? base rest).map (signed negative)

/-- The decimal number `± coefficient · 10 ^ exponent`. -/
structure Number where
  negative : Bool
  coefficient : Nat
  exponent : Int
deriving DecidableEq

/-- The exponent that a text gives: nothing, or `e` and a signed numeral. -/
def exponent? : List Char → Option Int
  | [] => some 0
  | c :: rest => if c = 'e' ∨ c = 'E' then integer? 10 rest else none

/-- The run of decimal digits at the front of a text, and the rest. -/
def spanDigits (text : List Char) : List Char × List Char :=
  text.span fun c => '0' ≤ c ∧ c ≤ '9'

/-- A decimal number: an optional sign, digits with at most one point among them and at least one
digit, and an optional exponent. -/
def number? (text : List Char) : Option Number := do
  let (negative, rest) := splitSign text
  let (whole, rest) := spanDigits rest
  let (fraction, rest) :=
    match rest with
    | '.' :: rest => spanDigits rest
    | rest => ([], rest)
  let power ← exponent? rest
  let coefficient ← natural? 10 (whole ++ fraction)
  return ⟨negative, coefficient, power - fraction.length⟩

/-- The double nearest to a decimal number. -/
def Number.toFloat (n : Number) : Float :=
  if n.coefficient = 0 then Binary64.zero n.negative
  else
    let leading := n.exponent + (Nat.toDigits 10 n.coefficient).length
    -- beyond these bounds every number rounds to an infinity or to zero
    if 400 < leading then Binary64.infinity n.negative
    else if leading < -400 then Binary64.zero n.negative
    else Binary64.roundRatio n.negative (n.coefficient * Nat.pow 10 n.exponent.toNat)
      (Nat.pow 10 (-n.exponent).toNat)

end ProgramArt.Decimal
