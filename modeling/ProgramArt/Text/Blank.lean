import ProgramArt.Text.Code

/-!
# Blanks and words

Texts are divided into `words` at blanks: the ASCII controls that space text, the information separators, and the
Unicode spaces and line ends.
-/

namespace ProgramArt.Text

/-- The code points that separate words. -/
def isBlank (code : Nat) : Bool :=
  (0x09 ≤ code && code ≤ 0x0d) || (0x1c ≤ code && code ≤ 0x20) || code == 0x85 || code == 0xa0 ||
    code == 0x1680 || (0x2000 ≤ code && code ≤ 0x200a) || code == 0x2028 || code == 0x2029 ||
    code == 0x202f || code == 0x205f || code == 0x3000

/-- The words of a text that continues the word `current`. -/
def wordsFrom : (current : Codes) → Codes → List Codes
  | current, [] => if current.isEmpty then [] else [current]
  | current, code :: rest =>
    if isBlank code then
      if current.isEmpty then wordsFrom [] rest else current :: wordsFrom [] rest
    else
      wordsFrom (current ++ [code]) rest

/-- The words of a text: its longest runs of code points that are not blank. -/
def words (text : Codes) : List Codes :=
  wordsFrom [] text

end ProgramArt.Text
