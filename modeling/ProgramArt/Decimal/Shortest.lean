import ProgramArt.Number.Binary64

/-!
# The fewest digits that read back

A positive double stands for every real number that rounds to it, its `interval`. Its shortest decimal is the one with
the fewest digits among those numbers; of several the nearest to the double itself.

The search works in whole numbers: for one digit, two digits and so on it tests the two neighbours of the double on
that decimal grid.
-/

namespace ProgramArt.Decimal

open ProgramArt

/-- The number `coefficient · 10 ^ exponent`. -/
structure Scaled where
  coefficient : Nat
  exponent : Int
deriving DecidableEq

namespace Scaled

/-- The decimal digits of the coefficient, most significant first. -/
def digits (d : Scaled) : List Char :=
  Nat.toDigits 10 d.coefficient

/-- The power of ten of the leading digit. -/
def leading (d : Scaled) : Int :=
  d.exponent + d.digits.length - 1

/-- Drop the trailing zeros of the coefficient. At most `fuel` of them are dropped. -/
def stripZeros : (fuel : Nat) → Scaled → Scaled
  | 0, d => d
  | fuel + 1, d =>
    if d.coefficient ≠ 0 ∧ d.coefficient % 10 = 0 then
      stripZeros fuel ⟨d.coefficient / 10, d.exponent + 1⟩
    else d

end Scaled

/-- The reals between `low / den` and `high / den` around `value / den`; the ends belong to the
interval when `closed` says so. -/
structure Interval where
  low : Nat
  value : Nat
  high : Nat
  den : Nat
  closed : Bool

/-- The reals that round to `mantissa · 2 ^ exponent`. The gap below a power of two is half the gap
above it, and a tie rounds to the even mantissa. -/
def interval (mantissa : Nat) (exponent : Int) : Interval :=
  let below := if mantissa = Nat.pow 2 Binary64.fractionBits ∧ Binary64.minExponent < exponent then 1 else 2
  let scale := exponent - 2
  let up := 1 <<< scale.toNat
  ⟨(4 * mantissa - below) * up, 4 * mantissa * up, (4 * mantissa + 2) * up, 1 <<< (-scale).toNat,
    mantissa % 2 = 0⟩

/-- `coefficient · 10 ^ exponent` lies in the interval. -/
def Interval.contains (i : Interval) (d : Scaled) : Bool :=
  let x := d.coefficient * Nat.pow 10 d.exponent.toNat * i.den
  let unit := Nat.pow 10 (-d.exponent).toNat
  if i.closed then decide (i.low * unit ≤ x ∧ x ≤ i.high * unit)
  else decide (i.low * unit < x ∧ x < i.high * unit)

/-- The largest `k` with `10 ^ k ≤ num / den`, found from `guess` upward. -/
def floorLog10From (num den : Nat) : (fuel : Nat) → (guess : Int) → Int
  | 0, guess => guess
  | fuel + 1, guess =>
    let next := guess + 1
    if Nat.pow 10 next.toNat * den ≤ num * Nat.pow 10 (-next).toNat then floorLog10From num den fuel next
    else guess

/-- The largest `k` with `10 ^ k ≤ num / den`, for a positive quotient. -/
def floorLog10 (num den : Nat) : Int :=
  floorLog10From num den 4 (Int.fdiv (Binary64.floorLog2 num den * 30103) 100000 - 2)

/-- The member of the interval on the grid of multiples of `10 ^ exponent` that is nearest to the
value, if one of the value's two neighbours is a member. A tie goes to the even coefficient. -/
def Interval.onGrid (i : Interval) (exponent : Int) : Option Scaled :=
  let num := i.value * Nat.pow 10 (-exponent).toNat
  let den := i.den * Nat.pow 10 exponent.toNat
  let down : Scaled := ⟨num / den, exponent⟩
  let up : Scaled := ⟨num / den + 1, exponent⟩
  match i.contains down, i.contains up with
  | true, true => some ⟨Binary64.roundQuotient num den, exponent⟩
  | true, false => some down
  | false, true => some up
  | false, false => none

/-- The first grid with a member, from `count` digits on; seventeen digits always have one. -/
def Interval.search (i : Interval) (leading : Int) : (fuel : Nat) → (count : Nat) → Scaled
  | 0, count => (i.onGrid (leading - count + 1)).getD ⟨i.value / i.den, 0⟩
  | fuel + 1, count =>
    match i.onGrid (leading - count + 1) with
    | some d => d
    | none => i.search leading fuel (count + 1)

/-- The shortest decimal that rounds to the positive double `mantissa · 2 ^ exponent`. -/
def shortest (mantissa : Nat) (exponent : Int) : Scaled :=
  let i := interval mantissa exponent
  (i.search (floorLog10 i.value i.den) 20 1).stripZeros 400

end ProgramArt.Decimal
