import ProgramArt.Decimal.Shortest

/-!
# Doubles as text

Three layouts of a double are in use. Two of them write the shortest digits that read back: the positional one of
program literals, and the one of values in messages, reports and files, which turns to an exponent for very large and
very small numbers. The third, `places`, writes a fixed number of places.
-/

namespace ProgramArt.Decimal

open ProgramArt

namespace Digits

/-- `digits · 10 ^ exponent` with a point: zeros fill the places that the digits do not reach. There is
no point in a whole number. -/
def positional (digits : List Char) (exponent : Int) : List Char :=
  if 0 ≤ exponent then
    digits ++ List.replicate exponent.toNat '0'
  else
    let fraction := (-exponent).toNat
    if fraction < digits.length then
      let whole := digits.length - fraction
      digits.take whole ++ '.' :: digits.drop whole
    else
      '0' :: '.' :: (List.replicate (fraction - digits.length) '0' ++ digits)

/-- `digits · 10 ^ exponent` with one digit before the point and a signed exponent of at least two
digits. -/
def scientific (digits : List Char) (exponent : Int) : List Char :=
  let leading := exponent + digits.length - 1
  let mantissa :=
    match digits with
    | [] => ['0']
    | [d] => [d]
    | d :: rest => d :: '.' :: rest
  let power := Nat.toDigits 10 leading.natAbs
  let padded := if power.length < 2 then '0' :: power else power
  mantissa ++ 'e' :: (if leading < 0 then '-' else '+') :: padded

/-- Text with a point, a final `.0` standing for no fraction. -/
def pointed (text : List Char) : List Char :=
  if text.contains '.' then text else text ++ ['.', '0']

end Digits

/-- How the shortest digits of a double are laid out. -/
structure Layout where
  /-- Leading powers of ten that are written with a point; all others get an exponent. -/
  isPositional : Int → Bool
  /-- The text of infinity. -/
  infinity : String
  /-- The text of NaN. -/
  nan : String

/-- Literals of a program never use an exponent, and everything has a point. -/
def Layout.literal : Layout := ⟨fun _ => true, "inf.0", "nan.0"⟩

/-- Values use an exponent below `10 ^ -4` and from `10 ^ 16` on. -/
def Layout.value : Layout := ⟨fun leading => -4 ≤ leading ∧ leading < 16, "inf", "nan"⟩

/-- The text of a double. -/
def Layout.format (layout : Layout) (x : Float) : String :=
  let signed (negative : Bool) (text : String) : String := if negative then "-" ++ text else text
  match Binary64.parts x with
  | .nan => layout.nan
  | .infinite negative => signed negative layout.infinity
  | .finite negative 0 _ => signed negative "0.0"
  | .finite negative mantissa exponent =>
    let d := shortest mantissa exponent
    let text :=
      if layout.isPositional d.leading then Digits.pointed (Digits.positional d.digits d.exponent)
      else Digits.scientific d.digits d.exponent
    signed negative (String.ofList text)

/-- A double in positional notation. A whole number has no point. -/
def positional (x : Float) : List Char :=
  let signed (negative : Bool) (text : List Char) : List Char := if negative then '-' :: text else text
  match Binary64.parts x with
  | .nan => ['n', 'a', 'n']
  | .infinite negative => signed negative ['i', 'n', 'f']
  | .finite negative 0 _ => signed negative ['0']
  | .finite negative mantissa exponent =>
    let d := shortest mantissa exponent
    signed negative (Digits.positional d.digits d.exponent)

/-- A double with `count` places, a tie going to the even digit. The sign of what rounds to zero is
kept. -/
def places (count : Nat) (x : Float) : String :=
  let signed (negative : Bool) (text : String) : String := if negative then "-" ++ text else text
  match Binary64.parts x with
  | .nan => "nan"
  | .infinite negative => signed negative "inf"
  | .finite negative mantissa exponent =>
    let num := (mantissa <<< exponent.toNat) * Nat.pow 10 count
    let units := Binary64.roundQuotient num (1 <<< (-exponent).toNat)
    let digits := Nat.toDigits 10 units
    let padded := List.replicate (count + 1 - digits.length) '0' ++ digits
    signed negative (String.ofList (Digits.positional padded (-(count : Int))))

end ProgramArt.Decimal
