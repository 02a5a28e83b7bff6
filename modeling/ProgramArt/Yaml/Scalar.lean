import ProgramArt.Decimal.Reader
import ProgramArt.Yaml.Cursor

/-!
# Scalars of a YAML text

A scalar is written plainly, in quotes, or as a block of indented lines. A line break inside a scalar is folded into a
blank (`folded`), unless it is kept by the style or followed by empty lines.
-/

namespace ProgramArt.Yaml

/-- A line break and the empty lines after it, folded: a single break becomes a blank, and otherwise
the empty lines remain. -/
def folded (lineBreak breaks : List Char) : List Char :=
  if lineBreak != ['\n'] then lineBreak ++ breaks
  else if breaks.isEmpty then [' ']
  else breaks

/-! ## Plain scalars -/

/-- The brackets and commas that have a meaning inside flow collections. -/
def isFlowMark (c : Char) : Bool :=
  c == ',' || c == '[' || c == ']' || c == '\x7b' || c == '\x7d'

/-- The length of the word of a plain scalar that comes first. A colon ends it where a value could
start. -/
def plainLength (flow : Bool) : List Char → Nat
  | [] => 0
  | c :: rest =>
    if isBlank c
        || (c == ':' && endsOr (fun d => isBlank d || (flow && isFlowMark d)) rest.head?)
        || (flow && (isFlowMark c || c == '?')) then 0
    else plainLength flow rest + 1

/-- What stands between two words of a plain scalar. -/
structure Gap where
  /-- The blanks that belong to the scalar if it goes on; none if it cannot go on. -/
  blanks : List Char
  /-- Where the gap ends. -/
  after : Cursor
  /-- Whether a line ended in the gap. -/
  crossed : Bool

/-- Empty lines and indentation in a gap; nothing when a document marker is met. -/
def gapLines (fuel : Nat) (c : Cursor) (breaks : List Char) : Option (List Char) × Cursor :=
  match fuel with
  | 0 => (some breaks, c)
  | fuel + 1 =>
    if c.at? ' ' then gapLines fuel c.next breaks
    else
      let (lineBreak, after) := c.lineBreak
      if lineBreak.isEmpty then (some breaks, c)
      else if after.atDocumentMarker then (none, after)
      else gapLines fuel after (breaks ++ lineBreak)

/-- The gap after a word of a plain scalar. -/
def plainGap (c : Cursor) : Gap :=
  let (spaces, c) := c.span (· == ' ')
  let (lineBreak, after) := c.lineBreak
  if lineBreak.isEmpty then ⟨spaces, c, false⟩
  else if after.atDocumentMarker then ⟨[], after, true⟩
  else
    match gapLines after.rest.length after [] with
    | (some breaks, after) => ⟨folded lineBreak breaks, after, true⟩
    | (none, after) => ⟨[], after, true⟩

/-- A scalar that has been read. -/
structure Scalar where
  text : List Char
  after : Cursor
  /-- Whether a line ended after the scalar, so that a key may follow. -/
  crossed : Bool

/-- A plain scalar: words, as long as the gaps between them stay inside the indentation. -/
def plainWords (flow : Bool) (indent : Int) (fuel : Nat) (c : Cursor) (seen gap : List Char)
    (crossed : Bool) : Scalar :=
  match fuel with
  | 0 => ⟨seen, c, crossed⟩
  | fuel + 1 =>
    let length := plainLength flow c.rest
    if c.at? '#' || length == 0 then ⟨seen, c, crossed⟩
    else
      let seen := seen ++ gap ++ c.rest.take length
      let gap := plainGap (c.skip length)
      if gap.blanks.isEmpty || gap.after.at? '#'
          || (!flow && decide ((gap.after.column : Int) < indent)) then
        ⟨seen, gap.after, gap.crossed⟩
      else plainWords flow indent fuel gap.after seen gap.blanks gap.crossed

/-- A plain scalar inside a block of the given indentation. -/
def plainScalar (flow : Bool) (indent : Int) (c : Cursor) : Scalar :=
  plainWords flow (indent + 1) (c.rest.length + 1) c [] [] false

/-! ## Scalars in quotes -/

/-- The characters that an escape of one letter stands for. -/
def letterEscapes : List (Char × Char) :=
  [('0', '\x00'), ('a', '\x07'), ('b', '\x08'), ('t', '\t'), ('\t', '\t'), ('n', '\n'),
    ('v', '\x0b'), ('f', '\x0c'), ('r', '\r'), ('e', '\x1b'), (' ', ' '), ('"', '"'),
    ('\\', '\\'), ('/', '/'), ('N', '\x85'), ('_', '\xa0'), ('L', '\u2028'), ('P', '\u2029')]

/-- The letters of the escapes that are followed by hexadecimal digits, and how many follow. -/
def codeEscapes : List (Char × Nat) :=
  [('x', 2), ('u', 4), ('U', 8)]

/-- A code point, if there is one of that number. -/
def codePoint (code : Nat) : Except YamlError Nat :=
  if Nat.pow 2 31 ≤ code then .error .tooLarge
  else if 0x110000 ≤ code then .error (.badValue "chr() arg not in range(0x110000)")
  else .ok code

/-- The code points of characters. -/
def codePoints (text : List Char) : List Nat := text.map Char.toNat

/-- The empty lines inside a scalar in quotes. A document marker cannot stand there. -/
def quotedBreaks (fuel : Nat) (c : Cursor) (breaks : List Char) :
    Except YamlError (List Char × Cursor) :=
  match fuel with
  | 0 => .ok (breaks, c)
  | fuel + 1 =>
    if c.atDocumentMarker then .error .malformed
    else
      let c := c.skipWhile fun d => d == ' ' || d == '\t'
      let (lineBreak, after) := c.lineBreak
      if lineBreak.isEmpty then .ok (breaks, c)
      else quotedBreaks fuel after (breaks ++ lineBreak)

/-- An escape, after its backslash: its code points and where it ends. An escaped line break
disappears. -/
def quotedEscape (c : Cursor) : Except YamlError (List Nat × Cursor) :=
  match c.peek with
  | none => .error .malformed
  | some letter =>
    match letterEscapes.lookup letter, codeEscapes.lookup letter with
    | some d, _ => .ok ([d.toNat], c.next)
    | none, some length =>
      let digits := c.next.rest.take length
      match Decimal.natural? 16 digits with
      | some code =>
        if digits.length < length then .error .malformed
        else (codePoint code).map fun d => ([d], c.next.skip length)
      | none => .error .malformed
    | none, none =>
      if isBreak letter then
        let after := c.lineBreak.2
        (quotedBreaks (after.rest.length + 1) after []).map fun (breaks, after) =>
          (codePoints breaks, after)
      else .error .malformed

/-- The characters that stand for themselves in either kind of quotes. -/
def isQuotable (c : Char) : Bool :=
  !(c == '\'' || c == '"' || c == '\\' || isBlank c)

/-- The code points of the rest of a scalar in quotes, after its opening quote. -/
def quotedRest (quote : Char) (fuel : Nat) (c : Cursor) (seen : List Nat) :
    Except YamlError (List Nat × Cursor) :=
  match fuel with
  | 0 => .error .malformed
  | fuel + 1 =>
    match c.rest with
    | [] => .error .malformed
    | first :: rest =>
      if first == '\'' && quote == '\'' && rest.head? == some '\'' then
        quotedRest quote fuel (c.skip 2) (seen ++ [quote.toNat])
      else if first == quote then .ok (seen, c.next)
      else if first == '\\' && quote == '"' then
        match quotedEscape c.next with
        | .ok (text, after) => quotedRest quote fuel after (seen ++ text)
        | .error e => .error e
      else if first == ' ' || first == '\t' then
        let (blanks, after) := c.span fun d => d == ' ' || d == '\t'
        if endsOr isBreak after.peek then quotedRest quote fuel after seen
        else quotedRest quote fuel after (seen ++ codePoints blanks)
      else if isBreak first then
        let (lineBreak, after) := c.lineBreak
        match quotedBreaks (after.rest.length + 1) after [] with
        | .ok (breaks, after) =>
          quotedRest quote fuel after (seen ++ codePoints (folded lineBreak breaks))
        | .error e => .error e
      else
        let (word, after) := c.next.span isQuotable
        quotedRest quote fuel after (seen ++ codePoints (first :: word))

/-- The code points of a scalar in quotes, which stands at its opening quote, and where it ends. -/
def quotedScalar (quote : Char) (c : Cursor) : Except YamlError (List Nat × Cursor) :=
  quotedRest quote (c.rest.length + 1) c.next []

/-! ## Blocks -/

/-- What becomes of the line breaks at the end of a block. -/
inductive Chomping where
  /-- None is kept. -/
  | strip
  /-- The last line keeps its break. -/
  | clip
  /-- All are kept. -/
  | keep
deriving DecidableEq

/-- The mark of a way to end a block. -/
def chomping? : Option Char → Option Chomping
  | some '+' => some .keep
  | some '-' => some .strip
  | _ => none

/-- The digit that fixes the indentation of a block. -/
def increment? : Option Char → Option Nat
  | some c => Decimal.digit? 10 c
  | none => none

/-- The marks after the one that opens a block, in either order, and where they end. -/
def blockMarks (c : Cursor) : Except YamlError (Chomping × Option Nat × Cursor) :=
  let (chomping, increment, c) :=
    match chomping? c.peek, increment? c.peek with
    | some chomping, _ =>
      match increment? c.next.peek with
      | some n => (chomping, some n, c.skip 2)
      | none => (chomping, none, c.next)
    | none, some n =>
      match chomping? c.next.peek with
      | some chomping => (chomping, some n, c.skip 2)
      | none => (.clip, some n, c.next)
    | none, none => (.clip, none, c)
  if increment == some 0 || !endsOr (fun d => d == ' ' || isBreak d) c.peek then .error .malformed
  else .ok (chomping, increment, c)

/-- Pass over blanks and a comment to the end of the line, and over its break. -/
def endOfLine (c : Cursor) : Except YamlError Cursor :=
  let c := c.skipSpaces.skipComment
  if endsOr isBreak c.peek then .ok c.lineBreak.2 else .error .malformed

/-- The empty lines in front of a block, and the deepest indentation among them and the first line. -/
def leadingLines (fuel : Nat) (c : Cursor) (breaks : List Char) (deepest : Nat) :
    List Char × Nat × Cursor :=
  match fuel with
  | 0 => (breaks, deepest, c)
  | fuel + 1 =>
    if c.at? ' ' then leadingLines fuel c.next breaks (max deepest c.next.column)
    else
      let (lineBreak, after) := c.lineBreak
      if lineBreak.isEmpty then (breaks, deepest, c)
      else leadingLines fuel after (breaks ++ lineBreak) deepest

/-- The empty lines between two lines of a block of the given indentation. -/
def innerLines (indent : Nat) (fuel : Nat) (c : Cursor) (breaks : List Char) :
    List Char × Cursor :=
  match fuel with
  | 0 => (breaks, c)
  | fuel + 1 =>
    let c := c.skipIndent indent
    let (lineBreak, after) := c.lineBreak
    if lineBreak.isEmpty then (breaks, c)
    else innerLines indent fuel after (breaks ++ lineBreak)

/-- Whether a line of a block starts here. -/
def atBlockLine (indent : Nat) (c : Cursor) : Bool :=
  c.column == indent && c.peek.isSome

/-- Whether a line goes on with a blank. -/
def atIndented (c : Cursor) : Bool :=
  c.at? ' ' || c.at? '\t'

/-- The lines of a block, with the empty lines in front of each. In a folded block a break between two
lines that are not indented further becomes a blank. -/
def blockLines (fold : Bool) (chomping : Chomping) (indent : Nat) (fuel : Nat) (c : Cursor)
    (seen breaks lineBreak : List Char) : List Char × Cursor :=
  let ended :=
    (seen ++ (if chomping = .strip then [] else lineBreak)
      ++ (if chomping = .keep then breaks else []), c)
  match fuel with
  | 0 => ended
  | fuel + 1 =>
    if !atBlockLine indent c then ended
    else
      let flush := !atIndented c
      let (line, c) := c.span (!isBreak ·)
      let seen := seen ++ breaks ++ line
      let (lineBreak, c) := c.lineBreak
      let (breaks, c) := innerLines indent (c.rest.length + 1) c []
      if atBlockLine indent c then
        let joint :=
          if fold && lineBreak == ['\n'] && flush && !atIndented c then
            if breaks.isEmpty then [' '] else []
          else lineBreak
        blockLines fold chomping indent fuel c (seen ++ joint) breaks []
      else blockLines fold chomping indent fuel c seen breaks lineBreak

/-- A block, which stands at the mark that opens it, inside the given indentation. -/
def blockScalar (fold : Bool) (indent : Int) (c : Cursor) : Except YamlError Scalar := do
  let (chomping, increment, c) ← blockMarks c.next
  let c ← endOfLine c
  let least := (max (indent + 1) 1).toNat
  let (breaks, indent, c) :=
    match increment with
    | some n =>
      let indent := least + n - 1
      let (breaks, c) := innerLines indent (c.rest.length + 1) c []
      (breaks, indent, c)
    | none =>
      let (breaks, deepest, c) := leadingLines (c.rest.length + 1) c [] 0
      (breaks, max least deepest, c)
  let (text, after) := blockLines fold chomping indent (c.rest.length + 1) c [] breaks []
  return ⟨text, after, true⟩

end ProgramArt.Yaml
