import ProgramArt.Text.Quoted

/-!
# Texts with halves of surrogate pairs

Some formats can name the two halves of a surrogate pair one by one. A text that holds such a half is no Unicode text:
it is a list of code points, which can be counted, compared and shown, but not written out as bytes
(`encodingFault?`). Where it is shown as a Unicode text all the same, a high half and the low half after it are one
character.
-/

namespace ProgramArt.Text

/-- A text by its code points, among which there may be halves of surrogate pairs. -/
abbrev Codes := List Nat

/-- The code points of a text. -/
def codesOf (text : String) : Codes := text.toList.map Char.toNat

/-- Whether a code point is the first half of a surrogate pair. -/
def isHighHalf (code : Nat) : Bool := 0xd800 ≤ code && code < 0xdc00

/-- Whether a code point is the second half of a surrogate pair. -/
def isLowHalf (code : Nat) : Bool := 0xdc00 ≤ code && code < 0xe000

/-- Whether a code point is half of a surrogate pair. -/
def isHalf (code : Nat) : Bool := isHighHalf code || isLowHalf code

/-- The code point that two halves stand for. -/
def pairCode (high low : Nat) : Nat := 0x10000 + (high - 0xd800) * 0x400 + (low - 0xdc00)

/-- Code points in which a high half and the low half after it are one. -/
def paired : Codes → Codes
  | [] => []
  | [code] => [code]
  | code :: next :: rest =>
    if isHighHalf code && isLowHalf next then pairCode code next :: paired rest
    else code :: paired (next :: rest)

/-- The character of a code point; a half becomes the replacement character. -/
def charOf (code : Nat) : Char := if isHalf code then '\ufffd' else Char.ofNat code

/-- The text of code points, in which halves are joined, and one without the other becomes the replacement
character. -/
def ofCodes (codes : Codes) : String := String.ofList ((paired codes).map charOf)

/-- A code point as it stands between the given quotes. -/
def escapeCode (quote : Char) (code : Nat) : List Char :=
  if isHalf code then '\\' :: 'u' :: hexDigits 4 code else escape quote (Char.ofNat code)

/-- Code points in quotes. -/
def quotedCodes (codes : Codes) : String :=
  let quote := quoteOf (codes.map charOf)
  String.ofList (quote :: codes.flatMap (escapeCode quote) ++ [quote])

/-- What is wrong with code points that cannot be written out as bytes: the first halves in a row. -/
def encodingFault? (codes : Codes) : Option String :=
  let start := (codes.takeWhile (!isHalf ·)).length
  match (codes.drop start).takeWhile isHalf with
  | [] => none
  | [half] =>
    let shown := String.ofList (escapeCode '\'' half)
    some s!"'utf-8' codec can't encode character '{shown}' in position {start}: surrogates not allowed"
  | halves =>
    let last := start + halves.length - 1
    some s!"'utf-8' codec can't encode characters in position {start}-{last}: surrogates not allowed"

end ProgramArt.Text
