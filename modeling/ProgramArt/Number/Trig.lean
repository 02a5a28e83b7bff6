import ProgramArt.Number.Binary64
import ProgramArt.Number.Series

/-!
# Sine, cosine and tangent of doubles

Each function gives the double nearest to the exact value. The argument is reduced by a multiple of a quarter turn
(`reduce`), with enough bits of π for the largest double, and the series are summed with at least 256 bits below the
leading bit of the argument.
-/

namespace ProgramArt.Trig

open ProgramArt.Binary64

/-- An angle as quarter turns and a rest of at most an eighth of a turn. -/
structure Reduced where
  /-- Fractional bits of the rest. -/
  bits : Nat
  /-- Quarter turns, modulo four. -/
  quarters : Nat
  /-- The angle that is left. -/
  rest : Int

/-- Fractional bits that leave 256 of them below the leading bit of `mantissa · 2 ^ exponent`. -/
def precision (mantissa : Nat) (exponent : Int) : Nat :=
  256 + (-(exponent + mantissa.log2)).toNat

/-- Split the angle `± mantissa · 2 ^ exponent` into quarter turns and a rest. -/
def reduce (negative : Bool) (mantissa : Nat) (exponent : Int) : Reduced :=
  let bits := precision mantissa exponent
  -- the angle and the quarter turn, both with as many fractional bits as are known of π
  let magnitude : Nat :=
    if 0 ≤ exponent + Series.piBits then mantissa <<< (exponent + Series.piBits).toNat
    else mantissa >>> (-(exponent + Series.piBits)).toNat
  let angle : Int := if negative then -(magnitude : Int) else magnitude
  let quarters := (2 * angle + Series.pi / 2) / Series.pi
  let rest := angle - (quarters * Series.pi) / 2
  ⟨bits, (quarters % 4).toNat, rest >>> (Series.piBits - bits)⟩

/-- The double nearest to a fixed-point number. -/
def nearest (bits : Nat) (x : Int) : Float :=
  roundScaled (decide (x < 0)) x.natAbs (-(bits : Int))

/-- The double nearest to the quotient of two fixed-point numbers. -/
def nearestQuotient (x y : Int) : Float :=
  roundRatio (decide (x < 0) != decide (y < 0)) x.natAbs y.natAbs

/-- The sine of an angle in radians. -/
def sin (x : Float) : Float :=
  match parts x with
  | .nan | .infinite _ => nan
  | .finite negative mantissa exponent =>
    if mantissa = 0 then x
    else
      let ⟨bits, quarters, rest⟩ := reduce negative mantissa exponent
      match quarters with
      | 0 => nearest bits (Series.sine bits rest)
      | 1 => nearest bits (Series.cosine bits rest)
      | 2 => nearest bits (-Series.sine bits rest)
      | _ => nearest bits (-Series.cosine bits rest)

/-- The cosine of an angle in radians. -/
def cos (x : Float) : Float :=
  match parts x with
  | .nan | .infinite _ => nan
  | .finite negative mantissa exponent =>
    if mantissa = 0 then 1.0
    else
      let ⟨bits, quarters, rest⟩ := reduce negative mantissa exponent
      match quarters with
      | 0 => nearest bits (Series.cosine bits rest)
      | 1 => nearest bits (-Series.sine bits rest)
      | 2 => nearest bits (-Series.cosine bits rest)
      | _ => nearest bits (Series.sine bits rest)

/-- The tangent of an angle in radians. -/
def tan (x : Float) : Float :=
  match parts x with
  | .nan | .infinite _ => nan
  | .finite negative mantissa exponent =>
    if mantissa = 0 then x
    else
      let ⟨bits, quarters, rest⟩ := reduce negative mantissa exponent
      let s := Series.sine bits rest
      let c := Series.cosine bits rest
      if quarters % 2 = 0 then nearestQuotient s c else nearestQuotient (-c) s

end ProgramArt.Trig
