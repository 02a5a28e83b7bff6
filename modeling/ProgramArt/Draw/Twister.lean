import ProgramArt.Draw.Source

/-!
# The Mersenne twister

A source of draws with a period of `2 ^ 19937 - 1`. Its state is a block of 624 words, which is mixed anew whenever
all of its words have been handed out. It is seeded by an integer of any size: the sign is dropped, and the 32-bit
digits of the magnitude are worked into the block.
-/

namespace ProgramArt.Draw

/-- A block of words and the number of those that have been handed out. -/
structure Twister where
  block : Array UInt32
  used : Nat

namespace Twister

/-- Words in a block. -/
def blockSize : Nat := 624

/-- Distance of the word that is mixed into another. -/
def offset : Nat := 397

/-- The word at a position of the block, which wraps around. -/
def wordAt (block : Array UInt32) (i : Nat) : UInt32 :=
  block.getD (i % blockSize) 0

/-- Replace one word of the block by a mixture of three. -/
def mixWord (block : Array UInt32) (i : Nat) : Array UInt32 :=
  let joined := (wordAt block i &&& 0x80000000) ||| (wordAt block (i + 1) &&& 0x7fffffff)
  let twisted := (joined >>> 1) ^^^ (if joined &&& 1 = 0 then 0 else 0x9908b0df)
  block.setIfInBounds i (wordAt block (i + offset) ^^^ twisted)

/-- Mix all words of a block in order. -/
def mix (block : Array UInt32) : Array UInt32 :=
  (List.range blockSize).foldl mixWord block

/-- Spread the bits of a word before it is handed out. -/
def temper (word : UInt32) : UInt32 :=
  let a := word ^^^ (word >>> 11)
  let b := a ^^^ ((a <<< 7) &&& 0x9d2c5680)
  let c := b ^^^ ((b <<< 15) &&& 0xefc60000)
  c ^^^ (c >>> 18)

/-- The next word. -/
def next (twister : Twister) : UInt32 × Twister :=
  if twister.used < blockSize then
    (temper (wordAt twister.block twister.used), { twister with used := twister.used + 1 })
  else
    let block := mix twister.block
    (temper (wordAt block 0), ⟨block, 1⟩)

/-! ## Seeding -/

/-- The block that a single word is spread over. -/
def spread (seed : UInt32) : Array UInt32 :=
  (List.range (blockSize - 1)).foldl
    (fun block i =>
      let last : UInt32 := block.getD i 0
      block.push ((last ^^^ (last >>> 30)) * 1812433253 + UInt32.ofNat (i + 1)))
    #[seed]

/-- The base `2 ^ 32` digits of a number, least significant first. -/
def digits : (fuel : Nat) → Nat → List UInt32
  | 0, _ => []
  | fuel + 1, n =>
    let rest := n / Nat.pow 2 32
    UInt32.ofNat n :: (if rest = 0 then [] else digits fuel rest)

/-- A block that is being filled, and the position at which it is. -/
structure Filling where
  block : Array UInt32
  position : Nat

/-- Replace the word at the position by `combine old spread`, and go on to the next one. After the last
word comes the second, the last being copied to the first place. -/
def Filling.advance (f : Filling) (factor : UInt32) (combine : UInt32 → UInt32) : Filling :=
  let before := f.block.getD (f.position - 1) 0
  let mixed := f.block.getD f.position 0 ^^^ ((before ^^^ (before >>> 30)) * factor)
  let block := f.block.setIfInBounds f.position (combine mixed)
  if f.position + 1 < blockSize then ⟨block, f.position + 1⟩
  else ⟨block.setIfInBounds 0 (block.getD (blockSize - 1) 0), 1⟩

/-- The source of a list of key words, which is not empty. -/
def ofKey (key : Array UInt32) : Twister :=
  let keyed := (List.range (max blockSize key.size)).foldl
    (fun f i =>
      let j := i % key.size
      f.advance 1664525 fun mixed => mixed + key.getD j 0 + UInt32.ofNat j)
    (⟨spread 19650218, 1⟩ : Filling)
  let settled := (List.range (blockSize - 1)).foldl
    (fun f _ => f.advance 1566083941 fun mixed => mixed - UInt32.ofNat f.position)
    keyed
  ⟨settled.block.setIfInBounds 0 0x80000000, blockSize⟩

/-- The source of a seed. -/
def ofSeed (seed : Int) : Twister :=
  ofKey (digits (seed.natAbs.log2 / 32 + 1) seed.natAbs).toArray

/-! ## Draws -/

/-- A number in the unit interval: a multiple of `2 ^ (-53)` from 27 bits of one word and 26 of the
next. -/
def unit (twister : Twister) : Float × Twister :=
  let (a, twister) := twister.next
  let (b, twister) := twister.next
  let high := (a >>> 5).toUInt64
  let low := (b >>> 6).toUInt64
  let units : UInt64 := high * 67108864 + low
  (units.toFloat / 9007199254740992.0, twister)

/-- The top bits of words in turn, as many as the bound has, until they give a number less than the
bound. The last try is taken modulo the bound. -/
def belowFrom (bound bits : Nat) : (tries : Nat) → Twister → Nat × Twister
  | 0, twister =>
    let (word, twister) := twister.next
    (word.toNat % bound, twister)
  | tries + 1, twister =>
    let (word, twister) := twister.next
    let value := word.toNat >>> (32 - bits)
    if value < bound then (value, twister) else belowFrom bound bits tries twister

/-- A whole number less than a bound. -/
def below (bound : Nat) (twister : Twister) : Nat × Twister :=
  belowFrom bound (bound.log2 + 1) 10000 twister

instance : Source Twister where
  unit twister :=
    let (x, rest) := twister.unit
    (.ok x, rest)
  below bound twister :=
    let (n, rest) := twister.below bound
    (.ok n, rest)

end Twister

end ProgramArt.Draw
