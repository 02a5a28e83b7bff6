/-!
# Series in fixed point

A real number is approximated by an integer that counts units of `2 ^ (-p)`. The power series of the elementary
functions are summed in that form until their terms vanish. Every operation drops less than one unit, so a sum of `n`
terms is off by a few times `n` units; callers ask for far more bits than a double holds.
-/

namespace ProgramArt.Series

/-- Product of two numbers with `p` fractional bits. -/
def mul (p : Nat) (a b : Int) : Int := (a * b) >>> p

/-- The quotient of two integers with `p` fractional bits. -/
def ofRatio (p : Nat) (num den : Int) : Int := Int.fdiv (num <<< p) den

/-- Sum `term + next term + …`, where the term after the `k`-th is `step k term`, until a term is zero
or `terms` of them have been added. -/
def sum (step : Nat → Int → Int) : (terms : Nat) → (k : Nat) → (term total : Int) → Int
  | 0, _, _, total => total
  | terms + 1, k, term, total =>
    if term = 0 then total else sum step terms (k + 1) (step k term) (total + term)

/-- More terms than any series below needs at the precisions in use. -/
def maxTerms : Nat := 2000

/-- `x - x³/3! + x⁵/5! - …` -/
def sine (p : Nat) (x : Int) : Int :=
  let square := mul p x x
  sum (fun k term => -(Int.tdiv (mul p term square) ((2 * k + 2) * (2 * k + 3)))) maxTerms 0 x 0

/-- `1 - x²/2! + x⁴/4! - …` -/
def cosine (p : Nat) (x : Int) : Int :=
  let square := mul p x x
  sum (fun k term => -(Int.tdiv (mul p term square) ((2 * k + 1) * (2 * k + 2)))) maxTerms 0
    (1 <<< p) 0

/-- `1 + x + x²/2! + …` -/
def exponential (p : Nat) (x : Int) : Int :=
  sum (fun k term => Int.tdiv (mul p term x) (k + 1)) maxTerms 0 (1 <<< p) 0

/-- `x + x³/3 + x⁵/5 + …`, from the powers of `x` in turn. -/
def artanh (p : Nat) (x : Int) : Int :=
  let square := mul p x x
  go square maxTerms 0 x 0
where
  /-- Add `power / (2 k + 1)` and go on with the next odd power. -/
  go (square : Int) : (terms : Nat) → (k : Nat) → (power total : Int) → Int
  | 0, _, _, total => total
  | terms + 1, k, power, total =>
    if power = 0 then total
    else go square terms (k + 1) (mul p power square) (total + Int.tdiv power (2 * k + 1))

/-- The arc tangent of `1 / n`: `1/n - 1/(3 n³) + 1/(5 n⁵) - …`, from the powers of `1 / n` in turn. -/
def arctanInverse (p n : Nat) : Int :=
  go maxTerms 0 ((1 <<< p) / n) 0
where
  /-- Add `± power / (2 k + 1)` and go on with the next odd power. -/
  go : (terms : Nat) → (k : Nat) → (power : Nat) → (total : Int) → Int
  | 0, _, _, total => total
  | terms + 1, k, power, total =>
    if power = 0 then total
    else
      let term : Int := (power / (2 * k + 1) : Nat)
      go terms (k + 1) (power / (n * n)) (if k % 2 = 0 then total + term else total - term)

/-- Fractional bits of `pi`. -/
def piBits : Nat := 1536

/-- The circle constant: four times the arc tangent of one, by `π/4 = 4 arctan 1/5 - arctan 1/239`. -/
def pi : Int :=
  (16 * arctanInverse (piBits + 32) 5 - 4 * arctanInverse (piBits + 32) 239) >>> (32 : Nat)

/-- Fractional bits of `logTwo`. -/
def logTwoBits : Nat := 640

/-- The natural logarithm of two: `2 artanh 1/3`. -/
def logTwo : Int :=
  (2 * artanh (logTwoBits + 32) (ofRatio (logTwoBits + 32) 1 3)) >>> (32 : Nat)

end ProgramArt.Series
