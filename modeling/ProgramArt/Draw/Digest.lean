/-!
# The 512-bit digest of a text

Texts are spread over 512 bits by the standard secure hash of that width. Its constants are the first 64 bits of the
fractional parts of the square roots and cube roots of the first primes, and are computed as that (`root`).
-/

namespace ProgramArt.Draw.Digest

/-! ## Constants -/

/-- The greatest number below `2 ^ bits` whose power does not exceed `n`, added to `low`. -/
def rootFrom (power n : Nat) : (bits low : Nat) → Nat
  | 0, low => low
  | bits + 1, low =>
    let high := low + Nat.pow 2 bits
    rootFrom power n bits (if Nat.pow high power ≤ n then high else low)

/-- The whole part of a root that is less than `2 ^ 80`. -/
def root (power n : Nat) : Nat :=
  rootFrom power n 80 0

/-- The first 64 bits of the fractional part of the square root or cube root of a number. -/
def fraction (power n : Nat) : UInt64 :=
  UInt64.ofNat (root power (n * Nat.pow 2 (64 * power)))

/-- Whether a number has no divisors but one and itself. -/
def isPrime (n : Nat) : Bool :=
  2 ≤ n && (List.range n).all fun d => d < 2 || n % d != 0

/-- The first eighty primes; the eightieth is 409. -/
def primes : List Nat :=
  (List.range 410).filter isPrime

/-- The constants of the eighty rounds. -/
def roundConstants : List UInt64 :=
  primes.map (fraction 3)

/-- The words that the digest starts from. -/
def initialWords : List UInt64 :=
  (primes.take 8).map (fraction 2)

/-! ## Rounds -/

/-- A word turned to the right. -/
def turn (word : UInt64) (n : UInt64) : UInt64 :=
  (word >>> n) ||| (word <<< (64 - n))

/-- The eight words of the state. -/
structure State where
  a : UInt64
  b : UInt64
  c : UInt64
  d : UInt64
  e : UInt64
  f : UInt64
  g : UInt64
  h : UInt64

/-- One round with a constant and a word of the message. -/
def State.round (s : State) (constant word : UInt64) : State :=
  let choice := (s.e &&& s.f) ^^^ (~~~s.e &&& s.g)
  let spreadE := turn s.e 14 ^^^ turn s.e 18 ^^^ turn s.e 41
  let first := s.h + spreadE + choice + constant + word
  let majority := (s.a &&& s.b) ^^^ (s.a &&& s.c) ^^^ (s.b &&& s.c)
  let spreadA := turn s.a 28 ^^^ turn s.a 34 ^^^ turn s.a 39
  ⟨first + (spreadA + majority), s.a, s.b, s.c, s.d + first, s.e, s.f, s.g⟩

/-- Two states added word by word. -/
def State.plus (s t : State) : State :=
  ⟨s.a + t.a, s.b + t.b, s.c + t.c, s.d + t.d, s.e + t.e, s.f + t.f, s.g + t.g, s.h + t.h⟩

/-- The next word of the schedule, from those before it, the latest first. -/
def nextWord (words : List UInt64) : UInt64 :=
  let near := words.getD 1 0
  let far := words.getD 14 0
  (turn near 19 ^^^ turn near 61 ^^^ (near >>> 6)) + words.getD 6 0
    + (turn far 1 ^^^ turn far 8 ^^^ (far >>> 7)) + words.getD 15 0

/-- The schedule with `count` more words, the latest first. -/
def extend : (count : Nat) → List UInt64 → List UInt64
  | 0, words => words
  | count + 1, words => extend count (nextWord words :: words)

/-- The state after a block of sixteen words. -/
def State.absorb (s : State) (block : List UInt64) : State :=
  let words := (extend 64 block.reverse).reverse
  s.plus ((roundConstants.zip words).foldl (fun t (constant, word) => t.round constant word) s)

/-! ## Messages -/

/-- The number that bytes stand for, the first being the most significant. -/
def ofBytes (bytes : List UInt8) : Nat :=
  bytes.foldl (fun n byte => n * 256 + byte.toNat) 0

/-- The `count` lowest words of a number, the most significant first. -/
def wordsOf (count n : Nat) : List UInt64 :=
  (List.range count).reverse.map fun i => UInt64.ofNat (n / Nat.pow 2 (64 * i))

/-- The blocks of a list of words. -/
def blocks : (count : Nat) → List UInt64 → List (List UInt64)
  | 0, _ => []
  | count + 1, words => words.take 16 :: blocks count (words.drop 16)

/-- The digest of a list of bytes. The message is closed by a single bit and its length. -/
def digest (bytes : List UInt8) : Nat :=
  let length := bytes.length
  let count := (length + 17 + 127) / 128
  let closed :=
    (ofBytes bytes * 256 + 128) * Nat.pow 256 (count * 128 - length - 1) + length * 8
  let start : State :=
    match initialWords with
    | [a, b, c, d, e, f, g, h] => ⟨a, b, c, d, e, f, g, h⟩
    | _ => ⟨0, 0, 0, 0, 0, 0, 0, 0⟩
  let s := (blocks count (wordsOf (count * 16) closed)).foldl State.absorb start
  [s.a, s.b, s.c, s.d, s.e, s.f, s.g, s.h].foldl (fun n word => n * Nat.pow 2 64 + word.toNat) 0

end ProgramArt.Draw.Digest
