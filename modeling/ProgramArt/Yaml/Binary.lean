/-!
# Bytes as text

Bytes are written with sixty-four letters, four of them for three bytes, and filled up with equals signs at the end.
Other characters are passed over.
-/

namespace ProgramArt.Yaml

/-- The six bits that a letter stands for. -/
def sextet? (c : Char) : Option Nat :=
  if 'A' ≤ c ∧ c ≤ 'Z' then some (c.toNat - 'A'.toNat)
  else if 'a' ≤ c ∧ c ≤ 'z' then some (c.toNat - 'a'.toNat + 26)
  else if '0' ≤ c ∧ c ≤ '9' then some (c.toNat - '0'.toNat + 52)
  else if c = '+' then some 62
  else if c = '/' then some 63
  else none

/-- The bytes so far, and the letters of a group of four whose bits are not all used up. -/
structure Sextets where
  octets : List UInt8 := []
  /-- The number of letters in the group. -/
  letters : Nat := 0
  /-- The bits of the group that belong to the next byte. -/
  left : Nat := 0

/-- Add the bits of a letter. -/
def Sextets.push (s : Sextets) (bits : Nat) : Sextets :=
  let byte (high low : Nat) : List UInt8 := s.octets ++ [UInt8.ofNat (high + low)]
  match s.letters with
  | 0 => ⟨s.octets, 1, bits⟩
  | 1 => ⟨byte (s.left * 4) (bits / 16), 2, bits % 16⟩
  | 2 => ⟨byte (s.left * 16) (bits / 4), 3, bits % 4⟩
  | _ => ⟨byte (s.left * 64) bits, 0, 0⟩

/-- The bytes of the rest of a text. Equals signs that fill up a group, with nothing else between them
but characters without a meaning, end the text. -/
def bytesFrom? (s : Sextets) (signs : Nat) : List Char → Option (List UInt8)
  | [] => if s.letters = 0 then some s.octets else none
  | c :: rest =>
    if c = '=' then
      if 2 ≤ s.letters then
        if 4 ≤ s.letters + signs + 1 then some s.octets else bytesFrom? s (signs + 1) rest
      else bytesFrom? s signs rest
    else
      match sextet? c with
      | some bits => bytesFrom? (s.push bits) 0 rest
      | none => bytesFrom? s signs rest

/-- The bytes that a text of plain characters stands for. -/
def bytes? (codes : List Nat) : Option (List UInt8) :=
  if codes.all (· < 128) then bytesFrom? {} 0 (codes.map Char.ofNat) else none

end ProgramArt.Yaml
