/-!
# Input of the tape machine

The machine reads from any `Source` that hands out values one after the other. The sources that texts give are a list
of values to hand out first and a list to repeat forever after; one whose second list is empty runs dry.
-/

namespace ProgramArt.Tape

/-- What input values can be taken from, one after the other. -/
class Source (σ : Type) where
  /-- The next value, if there is one, and what is left after it. -/
  next : σ → Option Int × σ

/-- A source that hands out one list of values and then repeats another. -/
structure Input where
  /-- Values handed out first. -/
  pending : List Int
  /-- Values repeated once the first ones are used up. -/
  cycled : List Int
deriving DecidableEq

/-- A byte as a signed number: the upper half of the bytes are negative. -/
def signedByte (byte : UInt8) : Int :=
  if 127 < byte.toNat then byte.toNat - 256 else byte.toNat

/-- The UTF-8 bytes of a text, each as a `signedByte`. -/
def signedBytes (text : String) : List Int :=
  text.toUTF8.toList.map signedByte

namespace Input

/-- The source that is dry from the start. -/
def empty : Input := ⟨[], []⟩

/-- The given values, then nothing. -/
def ofValues (values : List Int) : Input := ⟨values, []⟩

/-- The bytes of a text, then nothing. -/
def finite (text : String) : Input := ofValues (signedBytes text)

/-- The bytes of a text over and over; nothing at all for the empty text. -/
def cycle (text : String) : Input := ⟨[], signedBytes text⟩

/-- Take the next value, if there is one. -/
def next (input : Input) : Option Int × Input :=
  match input.pending, input.cycled with
  | value :: rest, cycled => (some value, ⟨rest, cycled⟩)
  | [], value :: rest => (some value, ⟨rest, value :: rest⟩)
  | [], [] => (none, input)

instance : Source Input := ⟨next⟩

/-- The first `n` values, or fewer when the source runs dry. -/
def take : Nat → Input → List Int
  | 0, _ => []
  | n + 1, input =>
    match input.next with
    | (some value, rest) => value :: take n rest
    | (none, _) => []

end Input

end ProgramArt.Tape
