import ProgramArt.Lineage.Basic

/-!
# The summary of a lineage

A summary lists the numbers about a lineage and its three most interesting entries.
-/

namespace ProgramArt.Lineage

/-- The lines of a summary. They end early if a field is not what the rest needs. -/
structure Summary where
  lines : List String
  fault : Option StatsError := none

/-- The lines in front of the first one that cannot be told. -/
def told : List (Except StatsError String) → Summary
  | [] => ⟨[], none⟩
  | .error e :: _ => ⟨[], some e⟩
  | .ok line :: rest =>
    let summary := told rest
    { summary with lines := line :: summary.lines }

/-- The first lines of every summary. -/
def summaryHead (total : Nat) : List String :=
  ["", "📚 Lineage Summary", String.ofList (List.replicate 40 '='), s!"Total entries: {total}"]

/-- A number with three places. -/
def threePlaces (datum : Datum) : Except StatsError String :=
  match datum.places? 3 with
  | some text => .ok text
  | none => .error (if datum.isNumber then .tooLarge else .wrongType)

/-- The line of one of the most interesting entries. -/
def rankLine (e : Entry) : Except StatsError String := do
  let interest ← threePlaces e.interest
  return s!"  gen {e.generation.text}: {e.code.text} ({interest})"

/-- The text of a datum that is one. -/
def asText? : Datum → Option String
  | .str text => some text
  | .rawText codes => some (Text.ofCodes codes)
  | _ => none

/-- The line of the kinds, which all have to be texts. -/
def kindsLine (kinds : List Datum) : Except StatsError String := do
  return "Kinds: " ++ String.intercalate ", " (← typed (kinds.mapM asText?))

/-- The line of the least and the greatest interest. -/
def interestLine (interest : Spread) : Except StatsError String := do
  let low ← threePlaces interest.min
  let high ← threePlaces interest.max
  return s!"Interest range: {low} - {high}"

/-- The lines about a lineage that has entries. -/
def summaryBody (lineage : Lineage) (stats : Stats) : List (Except StatsError String) :=
  let ranks := match lineage.best? 3 with
    | some entries => entries.map rankLine
    | none => [.error .wrongType]
  [kindsLine stats.kinds, interestLine stats.interest,
    .ok s!"Code length range: {stats.codeLength.min.text} - {stats.codeLength.max.text} chars",
    .ok "", .ok "Most interesting:"] ++ ranks

/-- The summary of a lineage. -/
def summary (lineage : Lineage) : Summary :=
  match lineage.stats with
  | .error e => ⟨[], some e⟩
  | .ok none => ⟨summaryHead 0, none⟩
  | .ok (some stats) => told ((summaryHead stats.total).map .ok ++ lineage.summaryBody stats)

end ProgramArt.Lineage
