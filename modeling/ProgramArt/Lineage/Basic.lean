import ProgramArt.Beat.Value
import ProgramArt.Datum.Depth
import ProgramArt.Datum.Order
import ProgramArt.Host
import ProgramArt.Ranking.Arrange

/-!
# Lines of descent

A lineage is the record of the programs of a line of descent, in the order in which they were added. An `Entry` comes
from a run or from a file, so its fields are data; what needs a number or a text fails where a field is neither.
-/

namespace ProgramArt

/-! ## Entries -/

/-- One generation of a line of descent. -/
structure Entry where
  code : Datum
  kind : Datum
  generation : Datum
  interest : Datum
  timestamp : Datum
  parent : Datum := .null
  metadata : Datum := .map []

namespace Entry

/-- The record of an entry. -/
def toDatum (e : Entry) : Datum :=
  .record
    [("code", e.code), ("kind", e.kind), ("generation", e.generation), ("interest", e.interest),
      ("timestamp", e.timestamp), ("parent", e.parent), ("metadata", e.metadata)]

/-- Whether an entry has a record: no field of it is nested too deeply. -/
def isRecordable [Host] (e : Entry) : Bool :=
  [e.code, e.kind, e.generation, e.interest, e.timestamp, e.parent, e.metadata].all
    fun field => field.isWithin Host.entryDepth

/-- The record of an entry, if it has one. -/
def record? [Host] (e : Entry) : Option Datum :=
  if e.isRecordable then some e.toDatum else none

/-- A new entry. Metadata that counts as absent is an empty mapping. -/
def make (now : String) (code kind generation interest parent metadata : Datum) : Entry where
  code := code
  kind := kind
  generation := generation
  interest := interest
  timestamp := .str now
  parent := parent
  metadata := if metadata.isTrue then metadata else .map []

/-- The names of the fields. -/
def fieldNames : List String :=
  ["code", "kind", "generation", "interest", "timestamp", "parent", "metadata"]

/-- Whether a key names a field. -/
def isField (key : Datum) : Bool :=
  fieldNames.any fun name => (Datum.str name).same key

/-- The entry of a record. Only the last three fields may be missing, and there are no others; an entry
without a time is given the present one. -/
def ofDatum? (now : String) (record : Datum) : Option Entry := do
  let .map fields := record | none
  if fields.all fun (key, _) => isField key then
    let field (name : String) := Datum.lookup? (.str name) fields
    return {
      code := ← field "code"
      kind := ← field "kind"
      generation := ← field "generation"
      interest := ← field "interest"
      timestamp := (field "timestamp").getD (.str now)
      parent := (field "parent").getD .null
      metadata := (field "metadata").getD (.map []) }
  else none

end Entry

/-! ## Lineages -/

/-- The record of a line of descent. -/
structure Lineage where
  entries : List Entry := []

namespace Lineage

/-- Add an entry at the end. -/
def add (lineage : Lineage) (entry : Entry) : Lineage :=
  ⟨lineage.entries ++ [entry]⟩

/-- Whether a program is recorded. -/
def has (lineage : Lineage) (code : Datum) : Bool :=
  lineage.entries.any fun e => e.code.same code

/-- The records of all entries, if all of them have one. -/
def records? [Host] (lineage : Lineage) : Option (List Datum) :=
  lineage.entries.mapM Entry.record?

@[simp]
theorem entries_add (lineage : Lineage) (entry : Entry) :
    (lineage.add entry).entries = lineage.entries ++ [entry] := rfl

/-! ## The most interesting entries -/

/-- Whether the first entry is less interesting than the second, if the two can be compared. -/
def below? (a b : Entry) : Option Bool :=
  a.interest.less? b.interest

/-- Whether the first entry is at least as interesting as the second. -/
def atLeast (a b : Entry) : Bool :=
  !(below? a b).getD false

/-- All entries, the most interesting first; among equals the earlier one comes first. There is no such
list if it takes a comparison that has no answer. -/
def ranked? (lineage : Lineage) : Option (List Entry) :=
  if lineage.entries.all fun e => e.interest.magnitude?.isSome then
    some (lineage.entries.mergeSort atLeast)
  else (Ranking.arrange? below? lineage.entries.reverse).map List.reverse

/-- The first entries of a list up to a limit; a negative limit drops so many from the end. -/
def upTo {α : Type} (limit : Int) (items : List α) : List α :=
  if limit < 0 then items.take (items.length - limit.natAbs) else items.take limit.toNat

/-- The most interesting entries, if their interests can be compared. -/
def best? (lineage : Lineage) (limit : Int) : Option (List Entry) :=
  lineage.ranked?.map (upTo limit)

/-! ## Numbers about all entries -/

/-- Why there are no numbers about a lineage. -/
inductive StatsError where
  /-- A field is no number or text where one is needed. -/
  | wrongType
  /-- A number is too large for a double. -/
  | tooLarge
deriving DecidableEq

/-- A value that is there, unless a field is of the wrong type. -/
def typed {α : Type} : Option α → Except StatsError α
  | some a => .ok a
  | none => .error .wrongType

/-- The least and the greatest of some numbers, and their mean. -/
structure Spread where
  min : Datum
  max : Datum
  mean : Float

/-- The record of a spread. -/
def Spread.toDatum (s : Spread) : Datum :=
  .record [("min", s.min), ("max", s.max), ("avg", .float s.mean)]

/-- Numbers about the entries of a lineage. -/
structure Stats where
  total : Nat
  /-- The kinds that occur, in order. -/
  kinds : List Datum
  interest : Spread
  codeLength : Spread

/-- The record of the numbers about a lineage. -/
def Stats.toDatum (s : Stats) : Datum :=
  .record
    [("total", .int s.total), ("kinds", .list s.kinds), ("interest_stats", s.interest.toDatum),
      ("code_length_stats", s.codeLength.toDatum)]

/-- The earliest of the least data. -/
def least : Datum → List Datum → Datum :=
  List.foldl fun low item => if (item.less? low).getD false then item else low

/-- The earliest of the greatest data. -/
def greatest : Datum → List Datum → Datum :=
  List.foldl fun high item => if (high.less? item).getD false then item else high

/-- A sum that one more number is added to: exact on integers, in doubles from the first double on. -/
def addNumber (sum : Beat.Value) (item : Datum) : Except StatsError Beat.Value := do
  match sum.add (← typed (Beat.Value.ofNumber? item)) with
  | .ok sum => return sum
  | .error _ => throw .tooLarge

/-- The sum from left to right. -/
def total (items : List Datum) : Except StatsError Beat.Value :=
  items.foldlM addNumber (.int 0)

/-- The mean of so many numbers with a given sum. -/
def mean (sum : Beat.Value) (count : Nat) : Except StatsError Float :=
  match sum with
  | .int n =>
    let quotient := Binary64.roundRatio (decide (n < 0)) n.natAbs count
    if quotient.isInf then .error .tooLarge else .ok quotient
  | .float x => .ok (x / Binary64.ofNat count)

/-- The spread of numbers, of which there is at least one. -/
def spread (first : Datum) (rest : List Datum) : Except StatsError Spread := do
  if (first :: rest).all Datum.isNumber then
    let sum ← total (first :: rest)
    return ⟨least first rest, greatest first rest, ← mean sum (rest.length + 1)⟩
  else throw .wrongType

/-- How many characters, items or entries a datum has. -/
def lengthOf? : Datum → Option Datum
  | .str text => some (.int text.length)
  | .rawText codes => some (.int codes.length)
  | .list items => some (.int items.length)
  | .map entries => some (.int entries.length)
  | _ => none

/-- Numbers about a lineage that starts with the given entry. -/
def statsFrom (first : Entry) (rest : List Entry) : Except StatsError Stats := do
  let firstLength ← typed (lengthOf? first.code)
  let codeLengths ← typed (rest.mapM fun e => lengthOf? e.code)
  let kinds := (first :: rest).map Entry.kind
  if !kinds.all Datum.isKey then throw .wrongType
  let kinds ← typed (Datum.sort? (Datum.distinct kinds))
  let interest ← spread first.interest (rest.map Entry.interest)
  let codeLength ← spread firstLength codeLengths
  return ⟨rest.length + 1, kinds, interest, codeLength⟩

/-- Numbers about a lineage, or `none` if it is empty. -/
def stats (lineage : Lineage) : Except StatsError (Option Stats) :=
  match lineage.entries with
  | [] => .ok none
  | first :: rest => (statsFrom first rest).map some

/-- The record of the numbers about a lineage. -/
def statsRecord : Option Stats → Datum
  | none => .record [("total", .int 0)]
  | some stats => stats.toDatum

end Lineage

end ProgramArt
