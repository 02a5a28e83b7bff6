import ProgramArt.Host
import ProgramArt.Yaml.Plain
import ProgramArt.Yaml.Token

/-!
# Nodes of a YAML document

The tokens of a document make a graph of scalars, sequences and mappings. A `Node` may have a tag, which says what it
stands for, and an anchor, by which aliases inside it and further on name it. Nodes are known by their numbers, in the
order in which they start. The functions of the grammar have fuel.
-/

namespace ProgramArt.Yaml

/-- What a node is made of. -/
inductive Content where
  /-- The code points of a text. -/
  | scalar (codes : List Nat)
  | sequence (items : List Nat)
  | mapping (entries : List (Nat × Nat))
deriving Inhabited

/-- A node, which has a kind unless its tag is unknown. -/
structure Node where
  kind : Option Kind
  content : Content
deriving Inhabited

/-- The tag handles that need no directive. -/
def standardHandles : List (String × String) :=
  [("!", "!"), ("!!", standardTags)]

/-- What is left to read, and what has been read and declared. -/
structure Context where
  tokens : List Token
  /-- What is met after the last token, if it is not the end of the text. -/
  fault : Option YamlError := none
  nodes : Array Node := #[]
  anchors : List (String × Nat) := []
  handles : List (String × String) := standardHandles

/-- Reading from tokens. -/
abbrev Reading (α : Type) := StateT Context (Except YamlError) α

namespace Reading

/-- The next token, if the text does not end here. -/
def peek : Reading (Option Token) := do
  let context ← get
  match context.tokens, context.fault with
  | token :: _, _ => return some token
  | [], some fault => throw fault
  | [], none => return none

/-- Pass over the next token. -/
def advance : Reading Unit :=
  modify fun c => { c with tokens := c.tokens.tail }

/-- Pass over the next token if it is the given one. -/
def accept (token : Token) : Reading Bool := do
  if (← peek) == some token then
    advance
    return true
  else return false

/-- Pass over the given token. -/
def expect (token : Token) : Reading Unit := do
  if !(← accept token) then throw .malformed

/-- Whether the next token is one of the given ones. -/
def atOne (choices : List Token) : Reading Bool := do
  match ← peek with
  | some token => return choices.contains token
  | none => return false

/-- The number of the node of an alias. -/
def aliased (name : String) : Reading Nat := do
  match (← get).anchors.lookup name with
  | some id => return id
  | none => throw .malformed

/-- Add a node and declare its anchor, which no two nodes share. -/
def add (anchor : Option String) (node : Node) : Reading Nat := do
  let context ← get
  let id := context.nodes.size
  let anchors ←
    match anchor with
    | none => pure context.anchors
    | some name =>
      if (context.anchors.lookup name).isSome then throw .malformed
      pure ((name, id) :: context.anchors)
  set { context with nodes := context.nodes.push node, anchors }
  return id

/-- Give a node its content. -/
def fill (id : Nat) (content : Content) : Reading Nat := do
  modify fun c => { c with nodes := c.nodes.modify id fun node => { node with content } }
  return id

/-- A tag in full. -/
def fullTag (handle : Option String) (suffix : String) : Reading String := do
  match handle with
  | none => return suffix
  | some handle =>
    match (← get).handles.lookup handle with
    | some start => return start ++ suffix
    | none => throw .malformed

/-- A tag as it is written, if there is one. -/
def tag? : Reading (Option (Option String × String)) := do
  match ← peek with
  | some (.tag handle suffix) =>
    advance
    return some (handle, suffix)
  | _ => return none

/-- An anchor, if there is one. -/
def anchor? : Reading (Option String) := do
  match ← peek with
  | some (.anchor name) =>
    advance
    return some name
  | _ => return none

/-- An anchor and a tag, in either order. -/
def properties : Reading (Option String × Option String) := do
  let (anchor, tag) ←
    match ← anchor? with
    | some name => pure (some name, ← tag?)
    | none =>
      let tag ← tag?
      if tag.isSome then pure (← anchor?, tag) else pure (none, none)
  match tag with
  | some (handle, suffix) => return (anchor, some (← fullTag handle suffix))
  | none => return (anchor, none)

/-- Add a scalar. Without a tag its form says what it is if it is plain, and it is a text otherwise; the
bare tag `!` says nothing. -/
def addScalar (anchor tag : Option String) (plain : Bool) (codes : List Nat) : Reading Nat :=
  let kind :=
    match tag with
    | none => if plain then some (plainKind (Text.ofCodes codes)) else some .text
    | some "!" => some (plainKind (Text.ofCodes codes))
    | some tag => Kind.ofTag? tag
  add anchor ⟨kind, .scalar codes⟩

/-- Add a node where nothing is written. -/
def addEmpty : Reading Nat := addScalar none none true []

/-- Add a collection, which is of its usual kind unless a tag says something else. -/
def addCollection (anchor tag : Option String) (usual : Kind) : Reading Nat :=
  let kind :=
    match tag with
    | none | some "!" => some usual
    | some tag => Kind.ofTag? tag
  add anchor ⟨kind, .sequence []⟩

end Reading

open Reading

/-- The tokens after which a key or a value of a block mapping is empty. -/
def blockStops : List Token := [.key, .value, .blockEnd]

variable [Host]

/-- Refuse to go on inside of too many collections. What reads the next item needs room of its own, which
is counted in collections too. -/
def needRoom (around : Nat) : Reading Unit := do
  if Host.itemDepth < around then throw .tooDeep

mutual

/-- A node inside `depth` collections. Block collections are read only where `block` says so, and a
sequence may stand at the indentation of the mapping around it where `indentless` says so. -/
def node (block indentless : Bool) (depth fuel : Nat) : Reading Nat :=
  match fuel with
  | 0 => throw .malformed
  | fuel + 1 => do
    match ← peek with
    | some (.alias name) =>
      advance
      aliased name
    | _ =>
      let (anchor, tag) ← properties
      content block indentless anchor tag depth fuel
termination_by structural fuel

/-- What stands after the anchor and the tag of a node. Nothing may stand there if the node has one of
them. -/
def content (block indentless : Bool) (anchor tag : Option String) (depth fuel : Nat) : Reading Nat :=
  match fuel with
  | 0 => throw .malformed
  | fuel + 1 => do
    let depth := depth + 1
    match ← peek with
    | some (.scalar codes plain) =>
      advance
      addScalar anchor tag plain codes
    | some .flowSequenceStart =>
      advance
      let id ← addCollection anchor tag .sequence
      fill id (.sequence (← flowSequence true depth fuel))
    | some .flowMappingStart =>
      advance
      let id ← addCollection anchor tag .mapping
      fill id (.mapping (← flowMapping true depth fuel))
    | next =>
      if next == some .blockEntry && indentless then
        let id ← addCollection anchor tag .sequence
        fill id (.sequence (← indentlessSequence depth fuel))
      else if next == some .blockSequenceStart && block then
        advance
        let id ← addCollection anchor tag .sequence
        fill id (.sequence (← blockSequence depth fuel))
      else if next == some .blockMappingStart && block then
        advance
        let id ← addCollection anchor tag .mapping
        fill id (.mapping (← blockMapping depth fuel))
      else if anchor.isSome || tag.isSome then addScalar anchor tag true []
      else throw .malformed
termination_by structural fuel

/-- The items of a block sequence. -/
def blockSequence (depth fuel : Nat) : Reading (List Nat) :=
  match fuel with
  | 0 => throw .malformed
  | fuel + 1 => do
    if ← accept .blockEntry then
      needRoom (depth + 1)
      let item ← nodeUnless [.blockEntry, .blockEnd] true false depth fuel
      return item :: (← blockSequence depth fuel)
    else
      expect .blockEnd
      return []
termination_by structural fuel

/-- The items of a sequence at the indentation of the mapping around it. -/
def indentlessSequence (depth fuel : Nat) : Reading (List Nat) :=
  match fuel with
  | 0 => throw .malformed
  | fuel + 1 => do
    if ← accept .blockEntry then
      needRoom (depth + 1)
      let item ← nodeUnless (.blockEntry :: blockStops) true false depth fuel
      return item :: (← indentlessSequence depth fuel)
    else return []
termination_by structural fuel

/-- The entries of a block mapping. -/
def blockMapping (depth fuel : Nat) : Reading (List (Nat × Nat)) :=
  match fuel with
  | 0 => throw .malformed
  | fuel + 1 => do
    if ← accept .key then
      needRoom (depth + 1)
      let name ← nodeUnless blockStops true true depth fuel
      let value ←
        if ← accept .value then
          needRoom (depth + 2)
          nodeUnless blockStops true true depth fuel
        else addEmpty
      return (name, value) :: (← blockMapping depth fuel)
    else
      expect .blockEnd
      return []
termination_by structural fuel

/-- The items of a flow sequence. A single entry of a mapping may be an item. -/
def flowSequence (first : Bool) (depth fuel : Nat) : Reading (List Nat) :=
  match fuel with
  | 0 => throw .malformed
  | fuel + 1 => do
    if ← accept .flowSequenceEnd then return []
    else
      if !first then expect .flowEntry
      needRoom depth
      if ← accept .key then
        needRoom (depth + 1)
        let id ← addCollection none none .mapping
        let name ← nodeUnless [.value, .flowEntry, .flowSequenceEnd] false false (depth + 1) fuel
        let value ←
          if ← accept .value then
            nodeUnless [.flowEntry, .flowSequenceEnd] false false (depth + 1) fuel
          else addEmpty
        let item ← fill id (.mapping [(name, value)])
        return item :: (← flowSequence false depth fuel)
      else if ← accept .flowSequenceEnd then return []
      else
        let item ← node false false depth fuel
        return item :: (← flowSequence false depth fuel)
termination_by structural fuel

/-- The entries of a flow mapping. -/
def flowMapping (first : Bool) (depth fuel : Nat) : Reading (List (Nat × Nat)) :=
  match fuel with
  | 0 => throw .malformed
  | fuel + 1 => do
    if ← accept .flowMappingEnd then return []
    else
      if !first then expect .flowEntry
      needRoom depth
      if ← accept .key then
        let name ← nodeUnless [.value, .flowEntry, .flowMappingEnd] false false depth fuel
        let value ←
          if ← accept .value then
            needRoom (depth + 1)
            nodeUnless [.flowEntry, .flowMappingEnd] false false depth fuel
          else addEmpty
        return (name, value) :: (← flowMapping false depth fuel)
      else if ← accept .flowMappingEnd then return []
      else
        let name ← node false false depth fuel
        let value ← addEmpty
        return (name, value) :: (← flowMapping false depth fuel)
termination_by structural fuel

/-- A node, or the empty one if one of the given tokens follows. -/
def nodeUnless (stops : List Token) (block indentless : Bool) (depth fuel : Nat) : Reading Nat :=
  match fuel with
  | 0 => throw .malformed
  | fuel + 1 => do
    if ← atOne stops then addEmpty else node block indentless depth fuel
termination_by structural fuel

end

/-! ## Documents -/

/-- The directives in front of a document: one version, which is the first, and tag handles. -/
def directives (fuel : Nat) (version : Bool) (handles : List (String × String)) :
    Reading (List (String × String)) :=
  match fuel with
  | 0 => throw .malformed
  | fuel + 1 => do
    match ← peek with
    | some (.version major) =>
      advance
      if version || major != 1 then throw .malformed
      directives fuel true handles
    | some (.tagHandle handle start) =>
      advance
      if (handles.lookup handle).isSome then throw .malformed
      directives fuel version ((handle, start) :: handles)
    | some .reserved =>
      advance
      directives fuel version handles
    | _ => return handles

/-- Whether a document has no content before the next token. -/
def atDocumentEdge : Reading Bool := do
  match ← peek with
  | none | some (.version _) | some (.tagHandle ..) | some .reserved | some .documentStart
  | some .documentEnd => return true
  | _ => return false

/-- Pass over the marks at the end of documents. -/
def skipEnds (fuel : Nat) : Reading Unit :=
  match fuel with
  | 0 => return ()
  | fuel + 1 => do
    if ← accept .documentEnd then skipEnds fuel

/-- The start of a document with directives and a mark. -/
def documentStart (fuel : Nat) : Reading Unit := do
  let handles ← directives fuel false []
  expect .documentStart
  modify fun c => { c with handles := handles ++ standardHandles }

/-- The only document, if there is one, up to the end of the tokens. -/
def onlyDocument (fuel : Nat) : Reading (Option Nat) := do
  let root ←
    match ← peek with
    | none => pure none
    | some (.version _) | some (.tagHandle ..) | some .reserved | some .documentStart =>
      documentStart fuel
      if ← atDocumentEdge then some <$> addEmpty else some <$> node true false 0 fuel
    | some _ => some <$> node true false 0 fuel
  skipEnds fuel
  if (← peek).isSome then
    documentStart fuel
    throw .malformed
  return root

/-- The nodes of a document and the number of the outermost one. -/
structure Graph where
  nodes : Array Node
  root : Nat

/-- The nodes of a text that holds at most one document. -/
def document? (text : List Char) : Except YamlError (Option Graph) := do
  let ⟨tokens, fault⟩ := tokens text
  let (root, context) ← (onlyDocument (8 * tokens.length + 8)).run { tokens, fault }
  return root.map fun root => ⟨context.nodes, root⟩

end ProgramArt.Yaml
