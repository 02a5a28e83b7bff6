import ProgramArt.Decimal.Typed
import ProgramArt.Yaml.Scalar

/-!
# Tokens of a YAML text

The tokens of a text say where collections start and end, also where only the indentation shows it. A key that is
followed by a colon is known for a key only when the colon is met, so its place is remembered and a mark is put in
front of it then (`SimpleKey`).
-/

namespace ProgramArt.Yaml

/-- The tokens of a text. -/
inductive Token where
  /-- The version that a document asks for. -/
  | version (major : Nat)
  /-- A short form of the beginning of tags. -/
  | tagHandle (handle start : String)
  /-- A directive that has no meaning here. -/
  | reserved
  | documentStart
  | documentEnd
  | blockSequenceStart
  | blockMappingStart
  | blockEnd
  | flowSequenceStart
  | flowSequenceEnd
  | flowMappingStart
  | flowMappingEnd
  | blockEntry
  | flowEntry
  | key
  | value
  | alias (name : String)
  | anchor (name : String)
  | tag (handle : Option String) (suffix : String)
  /-- A scalar, by its code points. -/
  | scalar (codes : List Nat) (plain : Bool)
deriving DecidableEq

/-! ## Words of directives, anchors and tags -/

/-- The characters of names. -/
def isNameChar (c : Char) : Bool :=
  c.isAlphanum || c == '-' || c == '_'

/-- The characters that a tag may have, besides letters and digits. -/
def tagMarks : List Char :=
  "-;/?:@&=+$,_.!~*'()[]%".toList

/-- A name of at least one character. -/
def nameAt (c : Cursor) : Except YamlError (String × Cursor) :=
  let (name, after) := c.span isNameChar
  if name.isEmpty then .error .malformed else .ok (String.ofList name, after)

/-- Go on if the text ends here or goes on with a character of the class. -/
def expectEndOr (p : Char → Bool) (c : Cursor) : Except YamlError Unit :=
  if endsOr p c.peek then .ok () else .error .malformed

/-- A blank or the end of the line. -/
def isSpaceOrBreak (c : Char) : Bool :=
  c == ' ' || isBreak c

/-- The name of an anchor or an alias, after its mark. -/
def anchorAt (c : Cursor) : Except YamlError (String × Cursor) := do
  let (name, after) ← nameAt c
  expectEndOr (fun d => isBlank d || "?:,]\x7d%@`".toList.contains d) after
  return (name, after)

/-- The bytes of the escapes at the front of a text, and where they end. -/
def escapedBytes (fuel : Nat) (c : Cursor) (bytes : List UInt8) :
    Except YamlError (List UInt8 × Cursor) :=
  match fuel with
  | 0 => .error .malformed
  | fuel + 1 =>
    if c.at? '%' then
      let digits := c.next.rest.take 2
      match Decimal.natural? 16 digits with
      | some code =>
        if digits.length < 2 then .error .malformed
        else escapedBytes fuel (c.skip 3) (bytes ++ [UInt8.ofNat code])
      | none => .error .malformed
    else .ok (bytes, c)

/-- The text of a tag. Escapes stand for the bytes of characters. -/
def tagTextFrom (fuel : Nat) (c : Cursor) (seen : String) : Except YamlError (String × Cursor) :=
  match fuel with
  | 0 => .error .malformed
  | fuel + 1 =>
    let (run, after) := c.span fun d => (d.isAlphanum || tagMarks.contains d) && d != '%'
    let seen := seen ++ String.ofList run
    if after.at? '%' then
      match escapedBytes (after.rest.length + 1) after [] with
      | .ok (bytes, after) =>
        match String.fromUTF8? ⟨bytes.toArray⟩ with
        | some text => tagTextFrom fuel after (seen ++ text)
        | none => .error .malformed
      | .error e => .error e
    else .ok (seen, after)

/-- The text of a tag, which is not empty. -/
def tagText (c : Cursor) : Except YamlError (String × Cursor) := do
  let (text, after) ← tagTextFrom (c.rest.length + 1) c ""
  if after.index == c.index then .error .malformed else .ok (text, after)

/-- The handle of a tag: `!`, or a name between two of these marks. -/
def tagHandleAt (c : Cursor) : Except YamlError (String × Cursor) :=
  if !c.at? '!' then .error .malformed
  else if c.peekAt 1 == some ' ' then .ok ("!", c.next)
  else
    let (name, after) := c.next.span isNameChar
    if after.at? '!' then .ok ("!" ++ String.ofList name ++ "!", after.next)
    else .error .malformed

/-- A tag, which stands at its mark. -/
def tagAt (c : Cursor) : Except YamlError (Token × Cursor) := do
  let (token, after) ←
    if c.peekAt 1 == some '<' then do
      let (suffix, after) ← tagText (c.skip 2)
      if after.at? '>' then pure (Token.tag none suffix, after.next) else throw .malformed
    else if endsOr isBlank (c.peekAt 1) then pure (Token.tag none "!", c.next)
    else do
      let word := c.next.rest.takeWhile (!isSpaceOrBreak ·)
      let (handle, after) ← if word.contains '!' then tagHandleAt c else pure ("!", c.next)
      let (suffix, after) ← tagText after
      pure (Token.tag (some handle) suffix, after)
  expectEndOr isSpaceOrBreak after
  return (token, after)

/-- A number of a version, which has not too many digits. Where they end is known only if the next
character can be read. -/
def versionNumber (c : Cursor) : Except YamlError (Nat × Cursor) := do
  let (digits, after) := c.span fun d => '0' ≤ d ∧ d ≤ '9'
  let some n := Decimal.natural? 10 digits | throw .malformed
  expectEndOr isAllowed after
  if Decimal.maxDigits < digits.length then
    throw (.badValue (Decimal.NumeralError.tooLong digits.length).message)
  return (n, after)

/-- A directive, which stands at its mark. -/
def directiveAt (c : Cursor) : Except YamlError (Token × Cursor) := do
  let (name, after) ← nameAt c.next
  expectEndOr isSpaceOrBreak after
  let (token, after) ←
    if name == "YAML" then do
      let (major, after) ← versionNumber after.skipSpaces
      if !after.at? '.' then throw .malformed
      let (_, after) ← versionNumber after.next
      expectEndOr isSpaceOrBreak after
      pure (Token.version major, after)
    else if name == "TAG" then do
      let (handle, after) ← tagHandleAt after.skipSpaces
      if !after.at? ' ' then throw .malformed
      let (start, after) ← tagText after.skipSpaces
      expectEndOr isSpaceOrBreak after
      pure (Token.tagHandle handle start, after)
    else pure (Token.reserved, after.skipWhile (!isBreak ·))
  return (token, ← endOfLine after)

/-! ## The state of the lexer -/

/-- A place where a key may have started. -/
structure SimpleKey where
  /-- The number of tokens in front of it. -/
  position : Nat
  /-- Whether nothing but a key can stand there. -/
  required : Bool
  index : Nat
  line : Nat
  column : Nat

/-- The tokens so far, the text that is left, and the collections that are open. -/
structure Lexer where
  cursor : Cursor
  tokens : Array Token := #[]
  /-- The number of flow collections around this place. -/
  flow : Nat := 0
  /-- The column of the block collection around this place, and those around it. -/
  indent : Int := -1
  outer : List Int := []
  /-- Whether a key may start here. -/
  keyAllowed : Bool := true
  /-- The places where a key may have started, by the number of flow collections around them. -/
  keys : List (Nat × SimpleKey) := []

/-- The tokens of a text, or those in front of a place where reading it fails. -/
structure Tokens where
  tokens : List Token
  /-- What is met after the last token, if it is not the end of the text. -/
  fault : Option YamlError := none

namespace Lexer

/-- The longest distance between a key and its colon. -/
def keyReach : Nat := 1024

/-- Add a token. -/
def emit (s : Lexer) (token : Token) : Lexer :=
  { s with tokens := s.tokens.push token }

/-- Add a token and pass over its characters. -/
def emitOver (s : Lexer) (token : Token) (length : Nat) : Lexer :=
  { s with tokens := s.tokens.push token, cursor := s.cursor.skip length }

/-- Put a token in front of others. -/
def emitAt (s : Lexer) (position : Nat) (token : Token) : Lexer :=
  { s with tokens := (s.tokens.toList.take position ++ token :: s.tokens.toList.drop position).toArray }

/-- Whether a key that started at a place can no longer be reached from here. -/
def isStale (s : Lexer) (key : SimpleKey) : Bool :=
  key.line != s.cursor.line || decide (keyReach < s.cursor.index - key.index)

/-- Forget the places from which a key can no longer be reached. -/
def dropStale (s : Lexer) : Except YamlError Lexer :=
  if s.keys.any fun (_, key) => s.isStale key && key.required then .error .malformed
  else .ok { s with keys := s.keys.filter fun (_, key) => !s.isStale key }

/-- The number of tokens that are final: no mark can be put in front of one of them any more. -/
def settled (s : Lexer) : Nat :=
  s.keys.foldl (fun count (_, key) => if s.isStale key then count else min count key.position)
    s.tokens.size

/-- Forget the place at this level. -/
def dropKey (s : Lexer) : Except YamlError Lexer :=
  match s.keys.lookup s.flow with
  | some key =>
    if key.required then .error .malformed
    else .ok { s with keys := s.keys.filter (·.1 != s.flow) }
  | none => .ok s

/-- Remember this place, if a key may start here. -/
def saveKey (s : Lexer) : Except YamlError Lexer :=
  if s.keyAllowed then do
    let s ← s.dropKey
    let key : SimpleKey :=
      { position := s.tokens.size
        required := s.flow == 0 && s.indent == s.cursor.column
        index := s.cursor.index
        line := s.cursor.line
        column := s.cursor.column }
    return { s with keys := (s.flow, key) :: s.keys }
  else .ok s

/-- Close the block collections that are indented further than a column. -/
def unwind (column : Int) (s : Lexer) : Lexer :=
  if s.flow != 0 then s
  else go (s.outer.length + 1) s
where
  /-- Close one collection after the other. -/
  go : Nat → Lexer → Lexer
    | 0, s => s
    | fuel + 1, s =>
      if column < s.indent then
        match s.outer with
        | indent :: outer => go fuel { s.emit .blockEnd with indent, outer }
        | [] => s
      else s

/-- Whether a block collection at this column would be a new one. -/
def isDeeper (s : Lexer) (column : Nat) : Bool :=
  decide (s.indent < column)

/-- Open a block collection at this column. -/
def deepen (s : Lexer) (column : Nat) : Lexer :=
  { s with indent := column, outer := s.indent :: s.outer }

/-- Pass over blanks, comments and line breaks. A key may start on a new line. -/
def skipToToken (fuel : Nat) (s : Lexer) : Lexer :=
  match fuel with
  | 0 => s
  | fuel + 1 =>
    let c := s.cursor.skipSpaces.skipComment
    let (lineBreak, after) := c.lineBreak
    if lineBreak.isEmpty then { s with cursor := c }
    else skipToToken fuel { s with cursor := after, keyAllowed := s.keyAllowed || s.flow == 0 }

/-! ## One token -/

/-- Close everything: the text or a document ends. -/
def closeAll (s : Lexer) : Except YamlError Lexer := do
  let s ← (s.unwind (-1)).dropKey
  return { s with keyAllowed := false }

/-- Open a flow collection. -/
def openFlow (s : Lexer) (token : Token) : Except YamlError Lexer := do
  let s ← s.saveKey
  return { s.emitOver token 1 with flow := s.flow + 1, keyAllowed := true }

/-- Close a flow collection. -/
def closeFlow (s : Lexer) (token : Token) : Except YamlError Lexer := do
  let s ← s.dropKey
  if s.flow == 0 then throw .malformed
  return { s.emitOver token 1 with flow := s.flow - 1, keyAllowed := false }

/-- The comma between items of a flow collection. -/
def flowComma (s : Lexer) : Except YamlError Lexer := do
  let s ← s.dropKey
  return { s.emitOver .flowEntry 1 with keyAllowed := true }

/-- Open a block collection with the given token, where it stands deeper than the one around it. -/
def openBlock (s : Lexer) (token : Token) : Except YamlError Lexer :=
  if s.flow != 0 then .ok s
  else if !s.keyAllowed then .error .malformed
  else if s.isDeeper s.cursor.column then .ok ((s.deepen s.cursor.column).emit token)
  else .ok s

/-- The dash in front of an item. -/
def dash (s : Lexer) : Except YamlError Lexer := do
  let s ← s.openBlock .blockSequenceStart
  let s ← s.dropKey
  return { s.emitOver .blockEntry 1 with keyAllowed := true }

/-- The question mark in front of a key. -/
def question (s : Lexer) : Except YamlError Lexer := do
  let s ← s.openBlock .blockMappingStart
  let s ← s.dropKey
  return { s.emitOver .key 1 with keyAllowed := s.flow == 0 }

/-- The colon in front of a value. A key that has started without a mark gets its mark now. -/
def colon (s : Lexer) : Except YamlError Lexer :=
  match s.keys.lookup s.flow with
  | some key =>
    let s := { s with keys := s.keys.filter (·.1 != s.flow) }
    let s := s.emitAt key.position .key
    let s :=
      if s.flow == 0 && s.isDeeper key.column then
        (s.deepen key.column).emitAt key.position .blockMappingStart
      else s
    .ok { s.emitOver .value 1 with keyAllowed := false }
  | none => do
    let s ← s.openBlock .blockMappingStart
    let s ← s.dropKey
    return { s.emitOver .value 1 with keyAllowed := s.flow == 0 }

/-- A token that may be a key, or the start of one. -/
def keyLike (s : Lexer) (read : Cursor → Except YamlError (Token × Cursor)) :
    Except YamlError Lexer := do
  let s ← s.saveKey
  let (token, after) ← read s.cursor
  return { s.emit token with cursor := after, keyAllowed := false }

/-- A plain scalar. -/
def plain (s : Lexer) : Except YamlError Lexer := do
  let s ← s.saveKey
  let scalar := plainScalar (s.flow != 0) s.indent s.cursor
  return { s.emit (.scalar (codePoints scalar.text) true) with
    cursor := scalar.after, keyAllowed := scalar.crossed }

/-- A block of lines. -/
def block (s : Lexer) (fold : Bool) : Except YamlError Lexer := do
  let s ← s.dropKey
  let scalar ← blockScalar fold s.indent s.cursor
  return { s.emit (.scalar (codePoints scalar.text) false) with
    cursor := scalar.after, keyAllowed := true }

/-- A token that is a name after a mark. -/
def named (make : String → Token) (c : Cursor) : Except YamlError (Token × Cursor) :=
  (anchorAt c.next).map fun (name, after) => (make name, after)

/-- A token that is a scalar in quotes. -/
def quoted (quote : Char) (c : Cursor) : Except YamlError (Token × Cursor) :=
  (quotedScalar quote c).map fun (codes, after) => (.scalar codes false, after)

/-- The characters that no plain scalar starts with, apart from the exceptions below. -/
def isIndicator (c : Char) : Bool :=
  "-?:,[]\x7b\x7d#&*!|>'\"%@`".toList.contains c

/-- Whether a plain scalar starts here. A dash, and outside of flow collections also a question mark or
a colon, starts one if a word goes on after it. -/
def startsPlain (s : Lexer) (c : Char) : Bool :=
  !(isBlank c || isIndicator c)
    || (!endsOr isBlank (s.cursor.peekAt 1) && (c == '-' || (s.flow == 0 && (c == '?' || c == ':'))))

/-- Whether a mark stands here as a word of its own. -/
def atMark (s : Lexer) : Bool :=
  endsOr isBlank (s.cursor.peekAt 1)

/-- Read the token that starts with the given character. -/
def step (s : Lexer) (c : Char) : Except YamlError Lexer :=
  if c == '%' && s.cursor.column == 0 then do
    let s ← s.closeAll
    let (token, after) ← directiveAt s.cursor
    return { s.emit token with cursor := after }
  else if s.cursor.column == 0 && s.cursor.atMarker ['-', '-', '-'] then do
    return (← s.closeAll).emitOver .documentStart 3
  else if s.cursor.column == 0 && s.cursor.atMarker ['.', '.', '.'] then do
    return (← s.closeAll).emitOver .documentEnd 3
  else if c == '[' then s.openFlow .flowSequenceStart
  else if c == '\x7b' then s.openFlow .flowMappingStart
  else if c == ']' then s.closeFlow .flowSequenceEnd
  else if c == '\x7d' then s.closeFlow .flowMappingEnd
  else if c == ',' then s.flowComma
  else if c == '-' && s.atMark then s.dash
  else if c == '?' && (s.flow != 0 || s.atMark) then s.question
  else if c == ':' && (s.flow != 0 || s.atMark) then s.colon
  else if c == '*' then s.keyLike (named .alias)
  else if c == '&' then s.keyLike (named .anchor)
  else if c == '!' then s.keyLike tagAt
  else if c == '|' && s.flow == 0 then s.block false
  else if c == '>' && s.flow == 0 then s.block true
  else if c == '\'' then s.keyLike (quoted '\'')
  else if c == '"' then s.keyLike (quoted '"')
  else if s.startsPlain c then s.plain
  else .error .malformed

/-- Read what comes next: a token, or the end of the text, where nothing is left. -/
def advance (s : Lexer) : Except YamlError (Lexer × Bool) := do
  let s ← (s.skipToToken (s.cursor.rest.length + 1)).dropStale
  let s := s.unwind s.cursor.column
  match s.cursor.peek with
  | none => return (← s.closeAll, true)
  | some c => return (← s.step c, false)

/-- The tokens that are final when reading fails. -/
def failed (s : Lexer) (fault : YamlError) : Tokens :=
  ⟨s.tokens.toList.take s.settled, some fault⟩

/-- Read tokens until the text ends or reading fails, at the latest at the place from which on nothing
can be read. -/
def run (bound : Option Nat) (fuel : Nat) (s : Lexer) : Tokens :=
  match fuel with
  | 0 => ⟨[], some .malformed⟩
  | fuel + 1 =>
    match s.advance with
    | .ok (next, ended) =>
      if bound.any (· ≤ next.cursor.index) then s.failed .malformed
      else if ended then ⟨next.tokens.toList, none⟩
      else run bound fuel next
    | .error e => s.failed e

end Lexer

/-! ## Texts -/

/-- The number of characters that are looked at before the first token is read. -/
def firstBlock : Nat := 8192

/-- The number of characters that are looked at together after the first ones. -/
def nextBlock : Nat := 4096

/-- The place from which on nothing can be read, if a text has a character that may not stand in it: the
start of the block with that character. -/
def bound? (text : List Char) : Option Nat :=
  (text.findIdx? (!isAllowed ·)).map fun place =>
    if place < firstBlock then 0 else place - (place - firstBlock) % nextBlock

/-- All tokens of a text. A byte order mark in front of it is passed over. -/
def tokens (text : List Char) : Tokens :=
  match bound? text with
  | some 0 => ⟨[], some .malformed⟩
  | bound =>
    let readable :=
      match bound with
      | some place => text.take place ++ (text.find? (!isAllowed ·)).toList
      | none => text
    let start : Cursor := ⟨readable, 0, 0, 0⟩
    let cursor := if start.at? '\ufeff' then start.next else start
    Lexer.run bound (text.length + 2) { cursor }

end ProgramArt.Yaml
