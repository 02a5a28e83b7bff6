import ProgramArt.Number.Summation

/-!
# What the host of a program decides

Most of what a program does is told by its text and its settings. The rest is left to the host that it runs on: how
much room there is, how deeply nested data may be, what the functions on doubles give in their last digit, and the
words of some reports. Everything in this library is said of an ambient `Host`, whichever it is. `Host/Standard` has
the one that programs are run on.
-/

namespace ProgramArt

/-- The limits, functions and words that a host brings along. -/
class Host where
  /-- The least number of cells of a tape for which there is no room. -/
  roomBound : Int
  /-- The least number of bytes of a table for which there is no room. -/
  imageBound : Nat
  /-- The most collections around a value in a document that is read. -/
  documentDepth : Nat
  /-- The most times that collections are nested in a field of an entry that is recorded. -/
  entryDepth : Nat
  /-- A document has room for its entries: they stand in a list, and this in a mapping. -/
  entryDepth_le : entryDepth + 3 ≤ documentDepth
  /-- The most times that collections are nested in a setting that is recorded. -/
  settingDepth : Nat
  /-- The most collections around an item of a settings file. -/
  itemDepth : Nat
  /-- The most directories on the way to another one that are made with it. -/
  missingDepth : Nat
  /-- The rounds of draws after which a random program of a length is given up. -/
  patience : Int → Nat
  /-- They suffice for every program of that length, if no draw is in vain. -/
  lt_patience : ∀ length, 2 * length.toNat + 2 < patience length
  /-- The sine of a double. -/
  sin : Float → Float
  /-- The cosine of a double. -/
  cos : Float → Float
  /-- The tangent of a double. -/
  tan : Float → Float
  /-- The power of a double to a double. -/
  pow : Float → Float → Float
  /-- The order in which so many numbers are added up. -/
  summation : Nat → Summation
  /-- Every number is added once. -/
  summation_perm : ∀ count, (summation count).items.Perm (List.range count)
  /-- A double in positional notation, without a point if it is whole. -/
  positional : Float → List Char
  /-- What is said about a text that is no document. -/
  aboutText : String → String
  /-- What is said about the text of a document that does not hold entries. -/
  aboutEntries : String → String

end ProgramArt
