import ProgramArt.Datum.Basic

/-!
# How deep data are nested

A record is made of data that have an end: collections may be nested in one another, but not too deeply, and none may
stand inside itself.
-/

namespace ProgramArt.Datum

mutual

/-- Whether the collections of a datum are nested at most so many times, and none stands inside
itself. -/
def isWithin : Datum → Nat → Bool
  | list items, depth => 0 < depth && areWithin items (depth - 1)
  | pair first second, depth =>
    0 < depth && isWithin first (depth - 1) && isWithin second (depth - 1)
  | map entries, depth => 0 < depth && entriesWithin entries (depth - 1)
  | again _, _ => false
  | _, _ => true

/-- Whether all of the data are nested at most so many times. -/
def areWithin : List Datum → Nat → Bool
  | [], _ => true
  | item :: rest, depth => isWithin item depth && areWithin rest depth

/-- Whether all keys and values are nested at most so many times. -/
def entriesWithin : List (Datum × Datum) → Nat → Bool
  | [], _ => true
  | (key, value) :: rest, depth =>
    isWithin key depth && isWithin value depth && entriesWithin rest depth

end

end ProgramArt.Datum
