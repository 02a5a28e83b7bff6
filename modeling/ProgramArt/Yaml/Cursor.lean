/-!
# Positions in a YAML text

The reader of a YAML text looks at the characters that are left and knows the line and the column of the first of
them, because indentation has a meaning.
-/

namespace ProgramArt.Yaml

/-- How reading a YAML text fails. -/
inductive YamlError where
  /-- The text is no document of the format. -/
  | malformed
  /-- A scalar is written well, but stands for no value, for the given reason. -/
  | badValue (reason : String)
  /-- A scalar stands for a number that is too large. -/
  | tooLarge
  /-- A scalar that is said to be a truth value is no word for one. -/
  | notTruthWord
  /-- A scalar that is said to be a number has no digits. -/
  | noDigits
  /-- A scalar that is said to be a date is written like none. -/
  | notDate
  /-- A mapping that stands for a scalar is said to be a date. -/
  | mappedDate
  /-- Collections are nested too deeply. -/
  | tooDeep
deriving DecidableEq

/-- Whether a character may stand in a text. -/
def isAllowed (c : Char) : Bool :=
  c == '\t' || c == '\n' || c == '\r' || (' ' ≤ c && c ≤ '~') || c == '\x85'
    || ('\xa0' ≤ c && c ≤ '\ufffd') || 0x10000 ≤ c.toNat

/-- Whether a character ends a line. -/
def isBreak (c : Char) : Bool :=
  c == '\n' || c == '\r' || c == '\x85' || c == '\u2028' || c == '\u2029'

/-- Whether a character separates words. -/
def isBlank (c : Char) : Bool :=
  c == ' ' || c == '\t' || isBreak c

/-- Whether a text ends here or goes on with a character of the class. -/
def endsOr (p : Char → Bool) : Option Char → Bool
  | none => true
  | some c => p c

/-- A text that is left to read, and the position of its first character. -/
structure Cursor where
  rest : List Char
  index : Nat := 0
  line : Nat := 0
  column : Nat := 0

namespace Cursor

/-- The first character. -/
def peek (c : Cursor) : Option Char := c.rest.head?

/-- The character `n` places further on. -/
def peekAt (c : Cursor) (n : Nat) : Option Char := c.rest[n]?

/-- Whether the text goes on with the given character. -/
def at? (c : Cursor) (expected : Char) : Bool := c.peek == some expected

/-- Go on by one character. A byte order mark takes no column. -/
def next (c : Cursor) : Cursor :=
  match c.rest with
  | [] => c
  | first :: rest =>
    if isBreak first && !(first == '\r' && rest.head? == some '\n') then
      ⟨rest, c.index + 1, c.line + 1, 0⟩
    else if first == '\ufeff' then ⟨rest, c.index + 1, c.line, c.column⟩
    else ⟨rest, c.index + 1, c.line, c.column + 1⟩

/-- Go on by a number of characters. -/
def skip : Nat → Cursor → Cursor
  | 0, c => c
  | n + 1, c => skip n c.next

/-- The characters of a class that come first, and where they end. -/
def span (p : Char → Bool) (c : Cursor) : List Char × Cursor :=
  let run := c.rest.takeWhile p
  (run, c.skip run.length)

/-- Pass over the characters of a class. -/
def skipWhile (p : Char → Bool) (c : Cursor) : Cursor :=
  (c.span p).2

/-- Pass over blanks that are spaces. -/
def skipSpaces (c : Cursor) : Cursor :=
  c.skipWhile (· == ' ')

/-- Pass over spaces as long as they stand left of a column. -/
def skipIndent (column : Nat) (c : Cursor) : Cursor :=
  let run := c.rest.takeWhile (· == ' ')
  c.skip (min run.length (column - c.column))

/-- Pass over a comment, up to the end of the line. -/
def skipComment (c : Cursor) : Cursor :=
  if c.at? '#' then c.skipWhile (!isBreak ·) else c

/-- A line break, if there is one. Most are one and the same; the two separators of Unicode keep
themselves. -/
def lineBreak (c : Cursor) : List Char × Cursor :=
  match c.rest with
  | '\r' :: '\n' :: _ => (['\n'], c.skip 2)
  | first :: _ =>
    if first == '\u2028' || first == '\u2029' then ([first], c.next)
    else if isBreak first then (['\n'], c.next)
    else ([], c)
  | [] => ([], c)

/-- Whether a marker of three characters stands here as a word of its own. -/
def atMarker (c : Cursor) (marker : List Char) : Bool :=
  marker.isPrefixOf c.rest && endsOr isBlank (c.peekAt 3)

/-- Whether a document ends or starts here. -/
def atDocumentMarker (c : Cursor) : Bool :=
  c.atMarker ['-', '-', '-'] || c.atMarker ['.', '.', '.']

end Cursor

end ProgramArt.Yaml
