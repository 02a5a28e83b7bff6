import ProgramArt.Picture.Basic

/-!
# Pictures as PNG files

A picture is written with eight bits for each part of a colour, without filters and without compression: the rows are
stored in blocks as they are.
-/

namespace ProgramArt.Png

/-! ## Checks -/

/-- One bit of the division by the polynomial of the cyclic check. -/
def crcBit (r : UInt32) : UInt32 :=
  if (r &&& 1) == 1 then (r >>> 1) ^^^ 0xedb88320 else r >>> 1

/-- The remainder after one more byte. -/
def crcByte (r : UInt32) (byte : UInt8) : UInt32 :=
  (crcBit ∘ crcBit ∘ crcBit ∘ crcBit ∘ crcBit ∘ crcBit ∘ crcBit ∘ crcBit) (r ^^^ byte.toUInt32)

/-- The cyclic check of bytes. -/
def crc (bytes : List UInt8) : UInt32 :=
  (bytes.foldl crcByte 0xffffffff) ^^^ 0xffffffff

/-- The two sums of the check of stored rows. -/
def adler (bytes : List UInt8) : UInt32 :=
  let (low, high) := bytes.foldl
    (fun (low, high) byte =>
      let low := (low + byte.toNat) % 65521
      (low, (high + low) % 65521))
    (1, 0)
  UInt32.ofNat (high * 65536 + low)

/-! ## Chunks and blocks -/

/-- The four bytes of a word, the most significant first. -/
def word (n : UInt32) : List UInt8 :=
  [(n >>> 24).toUInt8, (n >>> 16).toUInt8, (n >>> 8).toUInt8, n.toUInt8]

/-- A chunk with its length, its name and its check. -/
def chunk (name : String) (data : List UInt8) : List UInt8 :=
  let body := name.toUTF8.toList ++ data
  word (UInt32.ofNat data.length) ++ body ++ word (crc body)

/-- The most bytes of a stored block. -/
def blockLimit : Nat := 65535

/-- Bytes in stored blocks, of which `more` follow the first. -/
def stored : (more : Nat) → List UInt8 → List UInt8
  | more, bytes =>
    let part := bytes.take blockLimit
    let length := UInt16.ofNat part.length
    let head (last : UInt8) : List UInt8 :=
      [last, length.toUInt8, (length >>> 8).toUInt8, (~~~length).toUInt8,
        ((~~~length) >>> 8).toUInt8]
    match more with
    | 0 => head 1 ++ part
    | more + 1 => head 0 ++ part ++ stored more (bytes.drop blockLimit)

/-- The rows of a picture, each after the mark that it is not filtered. -/
def rows (picture : Picture) : List UInt8 :=
  picture.flatMap fun row => 0 :: row.flatMap Color.bytes

/-- The bytes in front of the first chunk. -/
def signature : List UInt8 := [137, 80, 78, 71, 13, 10, 26, 10]

end ProgramArt.Png

namespace ProgramArt

open Png in
/-- The bytes of the PNG file of a picture. -/
def Picture.toPng (picture : Picture) : List UInt8 :=
  let width := (picture.head?.map List.length).getD 0
  let size := word (UInt32.ofNat width) ++ word (UInt32.ofNat picture.length)
  let data := rows picture
  let packed := [0x78, 0x01] ++ stored ((data.length - 1) / blockLimit) data ++ word (adler data)
  signature ++ chunk "IHDR" (size ++ [8, 2, 0, 0, 0]) ++ chunk "IDAT" packed ++ chunk "IEND" []

end ProgramArt
