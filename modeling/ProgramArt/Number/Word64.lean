/-!
# 64-bit words as integers

Integer arithmetic of formulas is that of signed 64-bit words. Words are represented by the integers they stand for;
sums, differences, products, quotients, remainders and left shifts are wrapped back into the range of words (`wrap`).
The bitwise operations are those of two's complement without a width, so that on words they give words.
-/

namespace ProgramArt.Word64

/-- The least word. -/
def minValue : Int := -(Nat.pow 2 63 : Nat)

/-- The greatest word. -/
def maxValue : Int := (Nat.pow 2 63 : Nat) - 1

/-! ## Bits -/

/-- The bits of `m` that `n` does not have. -/
def without (m n : Nat) : Nat := m ^^^ (m &&& n)

/-- Bitwise conjunction. A negative integer `-(n + 1)` has the bits that `n` does not have. -/
def and : Int → Int → Int
  | .ofNat m, .ofNat n => .ofNat (m &&& n)
  | .ofNat m, .negSucc n => .ofNat (without m n)
  | .negSucc m, .ofNat n => .ofNat (without n m)
  | .negSucc m, .negSucc n => .negSucc (m ||| n)

/-- Bitwise disjunction. -/
def or : Int → Int → Int
  | .ofNat m, .ofNat n => .ofNat (m ||| n)
  | .ofNat m, .negSucc n => .negSucc (without n m)
  | .negSucc m, .ofNat n => .negSucc (without m n)
  | .negSucc m, .negSucc n => .negSucc (m &&& n)

/-- Bitwise exclusive disjunction. -/
def xor : Int → Int → Int
  | .ofNat m, .ofNat n => .ofNat (m ^^^ n)
  | .ofNat m, .negSucc n => .negSucc (m ^^^ n)
  | .negSucc m, .ofNat n => .negSucc (m ^^^ n)
  | .negSucc m, .negSucc n => .ofNat (m ^^^ n)

/-! ## Wrapping -/

/-- Sixty-four ones. -/
def mask : Int := (Nat.pow 2 64 : Nat) - 1

/-- The word whose low 64 bits are those of `n`: counted from `minValue` on, all bits but these are masked
out. -/
def wrap (n : Int) : Int := and (n - minValue) mask + minValue

/-! ## Division -/

/-- The quotient of the magnitudes of `a` and `b`, negated if exactly one of the two is negative. -/
def signedQuotient (a b : Int) : Int :=
  let q : Int := (a.natAbs / b.natAbs : Nat)
  if decide (a < 0) ≠ decide (b < 0) then -q else q

/-- The quotient, its fraction dropped; zero for a zero divisor. -/
def quotient (a b : Int) : Int :=
  if b = 0 then 0 else wrap (signedQuotient a b)

/-- What the `signedQuotient` leaves of the dividend, which has the dividend's sign; zero for a zero
divisor. -/
def remainder (a b : Int) : Int :=
  if b = 0 then 0 else wrap (a - b * signedQuotient a b)

/-! ## Shifts -/

/-- The number of places that an amount shifts by. -/
def places (amount : Int) : Nat := (amount % 64).toNat

/-- Shift to the left. -/
def shiftLeft (a amount : Int) : Int := wrap (a <<< places amount)

/-- Shift to the right, the sign filling up. -/
def shiftRight (a amount : Int) : Int := a >>> places amount

end ProgramArt.Word64
