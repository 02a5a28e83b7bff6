import ProgramArt.Datum.Basic
import ProgramArt.Draw.Digest
import ProgramArt.Draw.Twister
import ProgramArt.Number.Residue

/-!
# Seeds

A generator is seeded by an integer. Other data are turned into one (`seedOf?`): a double by its residue modulo a
large prime, and a text or bytes by the bytes with their digest behind them.
-/

namespace ProgramArt.Draw

/-- The integer of bytes, followed by their digest. -/
def byteSeed (bytes : List UInt8) : Nat :=
  Digest.ofBytes bytes * Nat.pow 2 512 + Digest.digest bytes

/-- The integer of a text: its bytes, followed by their digest. -/
def textSeed (text : String) : Nat :=
  byteSeed text.toUTF8.toList

/-- The integer that a datum seeds with; nothing seeds with a fresh one. -/
def seedOf? (fresh : Int) : Datum → Option Int
  | .null => some fresh
  | .bool value => some (if value then 1 else 0)
  | .int value => some value
  | .float value => some (Residue.ofFloat value)
  | .nan _ => some 0
  | .str value => some (textSeed value)
  | .bytes value => some (byteSeed value)
  | _ => none

end ProgramArt.Draw
