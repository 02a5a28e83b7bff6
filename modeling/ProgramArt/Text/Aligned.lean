import ProgramArt.Text.Code

/-!
# Aligned text

Reports line up numbers and words by filling them with blanks or zeros on the left.
-/

namespace ProgramArt.Text

/-- A text filled on the left to at least `width` characters. -/
def fillLeft (fill : Char) (width : Nat) (text : String) : String :=
  String.ofList (List.replicate (width - text.length) fill ++ text.toList)

/-- A text moved to the right end of a field of `width` characters. -/
def padLeft (width : Nat) (text : String) : String :=
  fillLeft ' ' width text

/-- Code points moved to the right end of a field of `width` of them. -/
def padCodes (width : Nat) (codes : Codes) : Codes :=
  List.replicate (width - codes.length) ' '.toNat ++ codes

/-- A number of at least `width` digits. -/
def zeroPadded (width n : Nat) : String :=
  fillLeft '0' width (toString n)

/-- Items between brackets, with commas. -/
def bracketed (items : List String) : String :=
  "[" ++ String.intercalate ", " items ++ "]"

end ProgramArt.Text
