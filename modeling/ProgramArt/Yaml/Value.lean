import ProgramArt.Datum.Members
import ProgramArt.Yaml.Binary
import ProgramArt.Yaml.Node

/-!
# The data of YAML nodes

A node becomes a datum by its kind. Collections are filled one after the other, in the order in which they are first
met, so that a collection may stand inside itself and the first fault in that order is the one that counts. A mapping
takes over the entries of those that its merge keys name (`flatten`), and its own entries win over them.
-/

namespace ProgramArt.Yaml

/-- What stands in a collection: a datum, or the collection of a node. -/
inductive Slot where
  | datum (value : Datum)
  | collection (id : Nat)

/-- What is inside a collection. -/
inductive Body where
  | list (items : List Slot)
  | pairs (entries : List (Slot × Slot))
  | set (members : List Datum)
  | map (entries : List (Datum × Slot))

/-- The nodes, the collections that have been filled, and those that wait, the first of them first. -/
structure Workshop where
  nodes : Array Node
  bodies : List (Nat × Body) := []
  met : List Nat := []
  waiting : List Nat := []

/-- Building data from nodes. -/
abbrev Building (α : Type) := StateT Workshop (Except YamlError) α

/-- A node by its number. -/
def nodeAt (id : Nat) : Building Node := do
  return (← get).nodes.getD id default

/-- The entries of a mapping, by the number of its node. -/
def entriesAt? (id : Nat) : Building (Option (List (Nat × Nat))) := do
  match (← nodeAt id).content with
  | .mapping entries => return some entries
  | _ => return none

/-- Change a node. -/
def changeNode (id : Nat) (change : Node → Node) : Building Unit :=
  modify fun w => { w with nodes := w.nodes.modify id change }

/-! ## Scalars -/

/-- The first value whose key is of the kind that marks the scalar of a mapping. -/
def defaultEntry? : List (Nat × Nat) → Building (Option Nat)
  | [] => return none
  | (key, value) :: rest => do
    if (← nodeAt key).kind == some .value then return some value else defaultEntry? rest

/-- The code points of a scalar, or of the scalar that a mapping stands for. -/
def scalarCodes (fuel : Nat) (id : Nat) : Building (List Nat) :=
  match fuel with
  | 0 => throw .tooDeep
  | fuel + 1 => do
    match (← nodeAt id).content with
    | .scalar codes => return codes
    | .sequence _ => throw .malformed
    | .mapping entries =>
      match ← defaultEntry? entries with
      | some value => scalarCodes fuel value
      | none => throw .malformed

/-- The value of code points of a kind, at the node with the given number. -/
def scalarValue (kind : Kind) (id : Nat) (codes : List Nat) : Except YamlError Datum :=
  let text := Text.ofCodes codes
  match kind with
  | .null => .ok .null
  | .bool => .bool <$> boolOf text
  | .int => .int <$> integerOf codes
  | .float => floatOf (id + 1) codes
  | .timestamp => timestampOf text
  | .text => .ok (.ofCodes codes)
  | .binary =>
    match bytes? codes with
    | some octets => .ok (.bytes octets)
    | none => .error .malformed
  | _ => .error .malformed

/-! ## Merge keys -/

/-- The entries that the value of a merge key names, with the merge keys of their mappings replaced:
those of a mapping, or those of a sequence of mappings, of which the earlier ones come last and win. -/
def mergedBy (flattened : Nat → Building (List (Nat × Nat))) (id : Nat) :
    Building (List (Nat × Nat)) := do
  match (← nodeAt id).content with
  | .mapping _ => flattened id
  | .sequence items =>
    let lists ← items.mapM fun item => do
      if (← entriesAt? item).isNone then throw .malformed
      flattened item
    return lists.reverse.flatten
  | .scalar _ => throw .malformed

/-- The entries of a mapping without its merge keys, which are taken out from the place `index` on, and
the entries that they name. The key of a default value becomes a text. -/
def flatten (fuel : Nat) (id index : Nat) (merged : List (Nat × Nat)) :
    Building (List (Nat × Nat)) :=
  match fuel with
  | 0 => throw .tooDeep
  | fuel + 1 => do
    let entries := (← entriesAt? id).getD []
    match entries[index]? with
    | none =>
      let all := merged ++ entries
      changeNode id fun node => { node with content := .mapping all }
      return all
    | some (key, value) =>
      match (← nodeAt key).kind with
      | some .merge =>
        changeNode id fun node => { node with content := .mapping (entries.eraseIdx index) }
        let more ← mergedBy (fun other => flatten fuel other 0 []) value
        flatten fuel id index (merged ++ more)
      | some .value =>
        changeNode key fun node => { node with kind := some .text }
        flatten fuel id (index + 1) merged
      | _ => flatten fuel id (index + 1) merged

/-- The entries of a mapping after those that its merge keys name. Every merge key is taken out before
its value is looked at, so this ends also where mappings name each other. -/
def flattened (size : Nat) (id : Nat) : Building (List (Nat × Nat)) :=
  flatten (Nat.pow (size + 2) 4) id 0 []

/-! ## Collections -/

/-- Begin a collection, which waits to be filled unless it has been met before. -/
def begin (id : Nat) : Building Slot := do
  modify fun w =>
    if w.met.contains id then w
    else { w with met := id :: w.met, waiting := w.waiting ++ [id] }
  return .collection id

/-- The datum of a node, or the collection that it begins. -/
def start (fuel : Nat) (id : Nat) : Building Slot := do
  let node ← nodeAt id
  match node.kind with
  | none => throw .malformed
  | some kind =>
    match kind with
    | .sequence | .mapping | .set | .pairs => begin id
    | .merge | .value | .mark => throw .malformed
    | .timestamp =>
      let codes ← scalarCodes fuel id
      if let .mapping _ := node.content then throw .mappedDate
      return .datum (← scalarValue kind id codes)
    | kind => return .datum (← scalarValue kind id (← scalarCodes fuel id))

/-- The entry of a key, which has to be a datum that can be one. -/
def startEntry (fuel : Nat) (key value : Nat) : Building (Datum × Slot) := do
  match ← start fuel key with
  | .datum name => return (name, ← start fuel value)
  | .collection _ => throw .malformed

/-- Give a key a value. A key that is there keeps its place. -/
def insertSlot (key : Datum) (value : Slot) : List (Datum × Slot) → List (Datum × Slot)
  | [] => [(key, value)]
  | (k, v) :: rest =>
    if Datum.sameInside key k then (k, value) :: rest
    else (k, v) :: insertSlot key value rest

/-- The entries of a mapping, in which a key stands once. -/
def startEntries (fuel : Nat) : List (Nat × Nat) → List (Datum × Slot) →
    Building (List (Datum × Slot))
  | [], seen => return seen
  | (key, value) :: rest, seen => do
    let (name, slot) ← startEntry fuel key value
    startEntries fuel rest (insertSlot name slot seen)

/-- The pair that a mapping of one entry stands for. -/
def startPair (fuel : Nat) (id : Nat) : Building (Slot × Slot) := do
  match ← entriesAt? id with
  | some [(key, value)] =>
    let first ← start fuel key
    return (first, ← start fuel value)
  | _ => throw .malformed

/-- What is inside a collection. -/
def bodyOf (fuel : Nat) (id : Nat) : Building Body := do
  let node ← nodeAt id
  match node.kind, node.content with
  | some .sequence, .sequence items => .list <$> items.mapM (start fuel)
  | some .pairs, .sequence items => .pairs <$> items.mapM (startPair fuel)
  | some .mapping, .mapping _ => .map <$> startEntries fuel (← flattened fuel id) []
  | some .set, .mapping _ =>
    let entries ← startEntries fuel (← flattened fuel id) []
    return .set (Datum.arrangeMembers (entries.map (·.1)))
  | _, _ => throw .malformed

/-- Fill the collections that wait, until none does. -/
def fillAll (size fuel : Nat) : Building Unit :=
  match fuel with
  | 0 => throw .tooDeep
  | fuel + 1 => do
    match (← get).waiting with
    | [] => return ()
    | id :: rest =>
      modify fun w => { w with waiting := rest }
      let body ← bodyOf size id
      modify fun w => { w with bodies := (id, body) :: w.bodies }
      fillAll size fuel

/-! ## Data -/

/-- The collections that have become data already. -/
abbrev Settling (α : Type) := StateM (List (Nat × Datum)) α

/-- A datum, and whether a collection around it stands in it again. -/
abbrev Settled := Datum × Bool

/-- A datum for each of the given places. -/
def settledItems (settle : Slot → Settling Settled) (slots : List Slot) :
    Settling (List Datum × Bool) := do
  let items ← slots.mapM settle
  return (items.map (·.1), items.any (·.2))

/-- The datum of a place inside the given collections. A collection that is one of them is only marked,
and one in which no such mark stands is made once. -/
def settle (bodies : List (Nat × Body)) (fuel : Nat) (around : List Nat) (slot : Slot) :
    Settling Settled :=
  match fuel with
  | 0 => return (.null, false)
  | fuel + 1 => do
    match slot with
    | .datum value => return (value, false)
    | .collection id =>
      let body := (bodies.lookup id).getD (.list [])
      if around.contains id then
        return (.again (body matches .list _ | .pairs _), true)
      else
        match (← get).lookup id with
        | some value => return (value, false)
        | none =>
          let inner := settle bodies fuel (id :: around)
          let (value, again) ←
            match body with
            | .list items => do
              let (items, again) ← settledItems inner items
              pure (Datum.list items, again)
            | .pairs entries => do
              let (firsts, again) ← settledItems inner (entries.map (·.1))
              let (seconds, more) ← settledItems inner (entries.map (·.2))
              pure (Datum.list (List.zipWith .pair firsts seconds), again || more)
            | .set members => pure (Datum.set members, false)
            | .map entries => do
              let (values, again) ← settledItems inner (entries.map (·.2))
              pure (Datum.map ((entries.map (·.1)).zip values), again)
          if !again then modify fun made => (id, value) :: made
          return (value, again)

/-- A document: what stands at its root, and its collections. -/
structure Document where
  root : Slot
  bodies : List (Nat × Body) := []
  /-- A bound for the depth of the collections, apart from those that stand inside themselves. -/
  size : Nat := 1

namespace Document

/-- The entries of the mapping at the root, if there is one. -/
def entries? (d : Document) : Option (List (Datum × Slot)) :=
  match d.root with
  | .collection id =>
    match d.bodies.lookup id with
    | some (.map entries) => some entries
    | _ => none
  | .datum _ => none

/-- Give a key of the mapping at the root a value. The change shows wherever the mapping stands. -/
def put (d : Document) (key value : Datum) : Document :=
  match d.root, d.entries? with
  | .collection id, some entries =>
    { d with bodies := (id, .map (insertSlot key (.datum value) entries)) :: d.bodies }
  | _, _ => d

/-- The datum of a document. Its outermost mapping does not count as being around its own values. -/
def datum (d : Document) : Datum :=
  let settled (slot : Slot) : Settling Datum := (·.1) <$> settle d.bodies d.size [] slot
  let whole : Settling Datum :=
    match d.entries? with
    | some entries => do
      let values ← (entries.map (·.2)).mapM settled
      return .map ((entries.map (·.1)).zip values)
    | none => settled d.root
  (whole.run []).1

end Document

/-- The document of a graph. -/
def Graph.document (g : Graph) : Except YamlError Document := do
  let size := g.nodes.size + 2
  let build : Building Slot := do
    let slot ← start size g.root
    fillAll size size
    return slot
  let (root, made) ← build.run { nodes := g.nodes }
  return { root, bodies := made.bodies, size }

end ProgramArt.Yaml
