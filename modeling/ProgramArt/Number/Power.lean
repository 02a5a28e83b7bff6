import ProgramArt.Number.Binary64
import ProgramArt.Number.Series

/-!
# Powers of doubles

`pow x y` is the double nearest to `x` raised to `y`, with the usual conventions at zeros, infinities and negative
bases. A positive power is computed as `exp (y · log x)` with 512 fractional bits. The result is cut to 200 bits
before it is rounded to a double, so that a power which is exact, or which lies exactly between two doubles, is
rounded as such.
-/

namespace ProgramArt.Power

open ProgramArt.Binary64

/-- Fractional bits in use. -/
def bits : Nat := 512

/-- Bits of a power that are kept before it is rounded to a double. -/
def keptBits : Nat := 200

/-- The logarithm of two with `bits` fractional bits. -/
def logTwo : Int := Series.logTwo >>> (Series.logTwoBits - bits)

/-- The natural logarithm of `mantissa · 2 ^ exponent`, for a positive mantissa. The number is written
as `f · 2 ^ k` with `f` between 3/4 and 3/2, and the logarithm of `f` is `2 artanh ((f-1)/(f+1))`. -/
def logarithm (mantissa : Nat) (exponent : Int) : Int :=
  let top := mantissa.log2
  let scale : Nat := if 3 <<< top ≤ 2 * mantissa then top + 1 else top
  let one : Int := ((1 <<< scale : Nat) : Int)
  let z := Series.ofRatio bits (mantissa - one) (mantissa + one)
  (exponent + scale) * logTwo + 2 * Series.artanh bits z

/-- The double nearest to `± base ^ y`, for a positive base and a finite exponent `y`, both given by
their parts. -/
def powPositive (negative : Bool) (mantissa : Nat) (exponent : Int) (below : Bool) (m : Nat) (e : Int) :
    Float :=
  let log := logarithm mantissa exponent
  let signed := if below then -(log * m) else log * m
  let product : Int := if 0 ≤ e then signed <<< e.toNat else signed >>> (-e).toNat
  -- beyond these bounds the power is out of the range of doubles
  if (2048 <<< bits : Int) ≤ product then infinity negative
  else if product ≤ -(2048 <<< bits : Int) then zero negative
  else
    let twos := (2 * product + logTwo) / (2 * logTwo)
    let rest := product - twos * logTwo
    let value := (Series.exponential bits rest).toNat
    let kept := roundQuotient value (1 <<< (bits - keptBits))
    roundScaled negative kept (twos - keptBits)

/-- Whether a number is an integer, and of which parity. -/
inductive Parity where
  | odd
  | even
  | fractional
deriving DecidableEq

/-- The parity of `mantissa · 2 ^ exponent`. -/
def parity (mantissa : Nat) (exponent : Int) : Parity :=
  if mantissa = 0 then .even
  else if 0 < exponent then .even
  else
    let drop := (-exponent).toNat
    if mantissa % (1 <<< drop) ≠ 0 then .fractional
    else if (mantissa >>> drop) % 2 = 1 then .odd
    else .even

/-- `x` raised to `y`. -/
def pow (x y : Float) : Float :=
  match parts x, parts y with
  -- anything to the power zero, and one to any power, is one
  | _, .finite _ 0 _ => 1.0
  | .nan, _ => nan
  | .finite false m e, .nan => if roundScaled false m e == 1.0 then 1.0 else nan
  | _, .nan => nan
  | .finite _ m e, .infinite below =>
    let magnitude := roundScaled false m e
    if magnitude == 1.0 then 1.0
    else if decide (magnitude < 1.0) == below then infinity false
    else zero false
  | .infinite _, .infinite below => if below then zero false else infinity false
  | .infinite negative, .finite below m e =>
    let sign := negative && parity m e == .odd
    if below then zero sign else infinity sign
  | .finite negative 0 _, .finite below m e =>
    let sign := negative && parity m e == .odd
    if below then infinity sign else zero sign
  | .finite negative mantissa exponent, .finite below m e =>
    match negative, parity m e with
    | false, _ => powPositive false mantissa exponent below m e
    | true, .odd => powPositive true mantissa exponent below m e
    | true, .even => powPositive false mantissa exponent below m e
    | true, .fractional => nan

end ProgramArt.Power
