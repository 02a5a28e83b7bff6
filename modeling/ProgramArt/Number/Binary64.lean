/-!
# Doubles as exact numbers

A finite double is an integer times a power of two. This module takes a `Float` apart into that form (`parts`) and
rounds an exact quotient back to the nearest double (`roundRatio`), so that conversions, remainders and the elementary
functions can be computed with whole numbers.
-/

namespace ProgramArt.Binary64

/-! ## Taking a double apart -/

/-- What a double stands for. -/
inductive Parts where
  /-- Not a number. -/
  | nan
  /-- An infinity. -/
  | infinite (negative : Bool)
  /-- The number `± mantissa · 2 ^ exponent`. -/
  | finite (negative : Bool) (mantissa : Nat) (exponent : Int)
deriving DecidableEq

/-- The number of mantissa bits that a double stores. -/
def fractionBits : Nat := 52

/-- The exponent of the smallest positive double. -/
def minExponent : Int := -1074

/-- The exponent field that marks infinities and NaN. -/
def specialField : Nat := 2047

/-- The parts of the double with the given bits. -/
def partsOfBits (bits : UInt64) : Parts :=
  let word := bits.toNat
  let negative := decide (Nat.pow 2 63 ≤ word)
  let field := word / Nat.pow 2 fractionBits % Nat.pow 2 11
  let fraction := word % Nat.pow 2 fractionBits
  if field = specialField then
    if fraction = 0 then .infinite negative else .nan
  else if field = 0 then
    .finite negative fraction minExponent
  else
    .finite negative (fraction + Nat.pow 2 fractionBits) (minExponent + (field - 1 : Nat))

/-- The parts of a double. -/
def parts (x : Float) : Parts :=
  partsOfBits x.toBits

/-- The sign bit of a double, which a zero has too. -/
def isNegative (x : Float) : Bool :=
  decide (Nat.pow 2 63 ≤ x.toBits.toNat)

/-! ## Putting a double together -/

/-- The double with the given sign and magnitude bits. -/
def ofMagnitude (negative : Bool) (magnitude : Nat) : Float :=
  Float.ofBits (UInt64.ofNat (if negative then Nat.pow 2 63 + magnitude else magnitude))

/-- The magnitude bits of an infinity. -/
def infiniteMagnitude : Nat := specialField * Nat.pow 2 fractionBits

/-- Zero with a sign. -/
def zero (negative : Bool) : Float := ofMagnitude negative 0

/-- Infinity with a sign. -/
def infinity (negative : Bool) : Float := ofMagnitude negative infiniteMagnitude

/-- Not a number. -/
def nan : Float := Float.ofBits 0x7ff8000000000000

/-- The whole number nearest to `num / den`; a tie goes to the even neighbour. -/
def roundQuotient (num den : Nat) : Nat :=
  let quotient := num / den
  let twice := 2 * (num % den)
  if twice < den then quotient
  else if den < twice then quotient + 1
  else quotient + quotient % 2

/-- The largest `k` with `2 ^ k ≤ num / den`, for a positive quotient. -/
def floorLog2 (num den : Nat) : Int :=
  let guess := (num.log2 : Int) - den.log2
  let fits := if 0 ≤ guess then den <<< guess.toNat ≤ num else den ≤ num <<< (-guess).toNat
  if fits then guess else guess - 1

/-- The double nearest to `± num / den`. A tie goes to the even mantissa, and what lies beyond the
largest double becomes an infinity. The denominator is positive. -/
def roundRatio (negative : Bool) (num den : Nat) : Float :=
  if num = 0 then zero negative
  else
    let exponent := max minExponent (floorLog2 num den - fractionBits)
    let mantissa :=
      if 0 ≤ exponent then roundQuotient num (den <<< exponent.toNat)
      else roundQuotient (num <<< (-exponent).toNat) den
    let magnitude := (exponent - minExponent).toNat * Nat.pow 2 fractionBits + mantissa
    ofMagnitude negative (min magnitude infiniteMagnitude)

/-- The double nearest to `± mantissa · 2 ^ exponent`. -/
def roundScaled (negative : Bool) (mantissa : Nat) (exponent : Int) : Float :=
  if 0 ≤ exponent then
    -- beyond this shift every positive mantissa is out of range
    if mantissa ≠ 0 ∧ 1100 ≤ exponent then infinity negative
    else roundRatio negative (mantissa <<< exponent.toNat) 1
  else
    roundRatio negative mantissa (1 <<< (-exponent).toNat)

/-! ## Integers and doubles -/

/-- The double nearest to a natural number. -/
def ofNat (n : Nat) : Float :=
  roundRatio false n 1

/-- The double nearest to an integer; `none` when the integer lies beyond every finite double. -/
def ofInt? (n : Int) : Option Float :=
  let x := roundRatio (decide (n < 0)) n.natAbs 1
  if x.isFinite then some x else none

/-- The integer part of a finite number, its fraction dropped. -/
def truncateParts (negative : Bool) (mantissa : Nat) (exponent : Int) : Int :=
  let magnitude : Nat :=
    if 0 ≤ exponent then mantissa <<< exponent.toNat else mantissa >>> (-exponent).toNat
  if negative then -(magnitude : Int) else magnitude

/-- The integer part of a double, its fraction dropped; `none` for NaN and the infinities. -/
def truncate (x : Float) : Option Int :=
  match parts x with
  | .finite negative mantissa exponent => some (truncateParts negative mantissa exponent)
  | _ => none

/-! ## Remainders -/

/-- What is left of `x` after taking away as many whole `y` as fit, with the sign of `x`. The result is
exact. There is none for an infinite `x` or a zero `y`. -/
def remainder (x y : Float) : Float :=
  match parts x, parts y with
  | .nan, _ | _, .nan => nan
  | .infinite _, _ => nan
  | .finite _ _ _, .infinite _ => x
  | .finite negative m e, .finite _ n f =>
    if n = 0 then nan
    else
      let low := min e f
      let left := (m <<< (e - low).toNat) % (n <<< (f - low).toNat)
      roundScaled negative left low

end ProgramArt.Binary64
