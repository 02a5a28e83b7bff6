import ProgramArt.Piece.Basic

/-!
# Sizes in a table

The side of a tape's squares can be given as a list, or as lists in a list. They are laid out as a table, which is
stretched over the pixels of the picture. Nothing is drawn in the end, since a picture has one width in squares, but
what is reported depends on how far the drawing comes (`tableFault`): a table that is uneven, or cannot be stretched,
is refused first, and a table of mixed entries is divided by entry for entry.
-/

namespace ProgramArt

/-! ## Tables -/

mutual

/-- The lengths of a table along its axes, the outermost first, unless it is uneven. -/
def tableLengths? : Datum → Option (List Nat)
  | .list items => (commonLengths? items).map (items.length :: ·)
  | _ => some []

/-- The lengths that all of the items have in common. -/
def commonLengths? : List Datum → Option (List Nat)
  | [] => some []
  | item :: rest => do
    let lengths ← tableLengths? item
    if rest.isEmpty then some lengths
    else if (← commonLengths? rest) = lengths then some lengths
    else none

end

mutual

/-- The entries of a table, row by row. -/
def tableEntries : Datum → List Datum
  | .list items => entriesOfAll items
  | datum => [datum]

/-- The entries of all of the tables. -/
def entriesOfAll : List Datum → List Datum
  | [] => []
  | item :: rest => tableEntries item ++ entriesOfAll rest

end

/-- The lengths that two tables are stretched to, all of them given from the innermost axis on: along
every axis they are of one length, or one of them is of length one. -/
def stretched? : List Nat → List Nat → Option (List Nat)
  | [], lengths => some lengths
  | lengths, [] => some lengths
  | a :: as, b :: bs => do
    let rest ← stretched? as bs
    if a = b ∨ b = 1 then some (a :: rest) else if a = 1 then some (b :: rest) else none

/-- The most axes of a table. -/
def maxAxes : Nat := 64

/-! ## Entries -/

/-- What the entries of a table have in common. -/
inductive TableKind where
  /-- They are numbers of a word. -/
  | numbers
  /-- They are texts, or numbers that are read as texts. -/
  | texts
  /-- They are anything. -/
  | mixed
deriving DecidableEq

/-- The kind of a table with a single entry. -/
def entryKind : Datum → TableKind
  | .bool _ | .float _ | .nan _ => .numbers
  | .int n => if Word64.minValue ≤ n ∧ n ≤ 2 * Word64.maxValue + 1 then .numbers else .mixed
  | .str _ | .rawText _ => .texts
  | _ => .mixed

/-- The kind of a table with the given entries. -/
def tableKind (entries : List Datum) : TableKind :=
  let kinds := entries.map entryKind
  if kinds.contains .mixed then .mixed else if kinds.contains .texts then .texts else .numbers

/-- What is wrong with an entry that something is divided by. -/
def divisorFault? : Datum → Option PieceError
  | .bool value => if value then none else some .noPixelSize
  | .int n => if n = 0 then some .noPixelSize else none
  | .float x => if x == 0.0 then some .noPixelSize else none
  | .nan _ => none
  | _ => some .badPixelSize

/-! ## Faults -/

/-- What is wrong with a table of sizes for a picture. -/
def tableFault (sizes : Datum) (width height : Nat) : PieceError :=
  let entries := tableEntries sizes
  match (tableLengths? sizes).filter (·.length ≤ maxAxes), tableKind entries with
  | none, _ => .unevenPixelSize
  | some _, .texts => .badPixelSize
  | some lengths, kind =>
    match stretched? lengths.reverse [width, height] with
    | none => .unevenPixelSize
    | some pixels =>
      if kind = .mixed ∧ ¬ pixels.contains 0 then
        (entries.findSome? divisorFault?).getD .badPixelSize
      else .badPixelSize

end ProgramArt
