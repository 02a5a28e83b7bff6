import ProgramArt.Host
import ProgramArt.Number.Binary64

/-!
# How interesting an output is

Dull mutants are told from interesting ones by their output. The output of a tape program is scored by how varied and
how long it is (`ofOutput`), an image by the variance of its pixels (`ofPixels`).
-/

namespace ProgramArt.Interest

/-- Output without printable values scores nothing, one value repeated scores a quarter of its length,
very short output its length, and anything else a hundred. -/
def ofOutput (output : List Int) : Nat :=
  if output.all fun v => 0 ≤ v ∧ v ≤ 31 then 0
  else if output.all fun v => some v == output.head? then output.length / 4
  else if output.length ≤ 5 then output.length
  else 100

/-! ## Sums -/

/-- Numbers that stand for counts and for bytes. -/
class Numeric (α : Type) where
  /-- The number of a count. -/
  ofCount : Nat → α
  /-- The number of a byte. -/
  ofByte : UInt8 → α

instance : Numeric Float := ⟨Binary64.ofNat, UInt8.toFloat⟩

variable {α : Type} [Add α] [Sub α] [Mul α] [Div α] [OfScientific α] [Numeric α]

/-- The sum of a row of numbers, in the order of the host. -/
def sum [Host] (xs : Array α) : α :=
  (Host.summation xs.size).total xs

/-- The number of members of a row. -/
def count (xs : Array α) : α :=
  Numeric.ofCount xs.size

/-- The mean of the squared deviations from the mean. -/
def variance [Host] (xs : Array α) : α :=
  let mean := sum xs / count xs
  let squares := xs.map fun x => (x - mean) * (x - mean)
  sum squares / count xs

/-! ## Images -/

/-- The largest variance that values from 0 to 255 can have: half of them 0 and half of them 255. -/
def maxVariance : α := 127.5 * 127.5

/-- The variance of bytes as a part of the largest possible one. -/
def share [Host] (pixels : List UInt8) : α :=
  variance (pixels.map Numeric.ofByte).toArray / maxVariance

/-- The part that the variance of the pixels is of the largest possible one, but one at most. -/
def ofBytes [Host] [LT α] [DecidableLT α] (pixels : List UInt8) : α :=
  if pixels.isEmpty then 0.0
  else
    let part : α := share pixels
    if part < 1.0 then part else 1.0

/-- The score of an image. It is computed in doubles. -/
def ofPixels [Host] (pixels : List UInt8) : Float :=
  ofBytes pixels

end ProgramArt.Interest
