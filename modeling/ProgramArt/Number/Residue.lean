import ProgramArt.Number.Binary64

/-!
# Residues of numbers

Every number that a double or an integer can be has a residue modulo the prime `2 ^ 61 - 1`, and equal numbers have
the same one. A residue is kept as a word of 64 bits, so that negative ones count down from the top.
-/

namespace ProgramArt.Residue

/-- The modulus of residues, which is a prime. -/
def modulus : Nat := Nat.pow 2 61 - 1

/-- The word of a residue with its sign. Minus one is left out, and minus two stands in for it. -/
def signed (negative : Bool) (residue : Nat) : Nat :=
  if !negative || residue = 0 then residue
  else if residue = 1 then Nat.pow 2 64 - 2
  else Nat.pow 2 64 - residue

/-- The residue of an integer. -/
def ofInt (n : Int) : Nat :=
  signed (decide (n < 0)) (n.natAbs % modulus)

/-- The residue of `mantissa · 2 ^ exponent`; two to the sixty-first power counts as one. -/
def ofParts (mantissa : Nat) (exponent : Int) : Nat :=
  mantissa * Nat.pow 2 (exponent % 61).toNat % modulus

/-- The residue of a double. Infinities have one by convention, and NaN has none. -/
def ofFloat (x : Float) : Nat :=
  match Binary64.parts x with
  | .nan => 0
  | .infinite negative => signed negative 314159
  | .finite negative mantissa exponent => signed negative (ofParts mantissa exponent)

end ProgramArt.Residue
