import ProgramArt.Descent.Run

/-!
# Working with a line of descent by hand

In a session one piece at a time is held, at first none, and every step of a line of descent can be taken on it by
itself.
-/

namespace ProgramArt

/-- A line of descent and the piece that is held. -/
structure Session (σ : Type) where
  descent : Descent σ
  piece : Option Piece := none

/-- Computations in a session. -/
abbrev Sitting (σ α : Type) := ExceptT DescentError (StateM (Session σ)) α

namespace Session

variable {σ α : Type}

/-- Hold a piece. -/
def hold (piece : Piece) : Sitting σ Unit :=
  modify fun s => { s with piece := some piece }

/-- The piece that is held. Where none is, nothing is there in its place. -/
def held : Sitting σ Piece := do
  match (← get).piece with
  | some piece => return piece
  | none => throw (.piece (.notPiece Datum.null.typeName))

/-- A step on the line of descent. -/
def onDescent (step : Descending σ α) : Sitting σ α :=
  fun s =>
    let (outcome, descent) := step s.descent
    (outcome, { s with descent })

/-- The settings. -/
def config : Sitting σ Config := do
  return (← get).descent.config

/-- Take the first piece of the settings. -/
def initial [Host] [Draw.Source σ] : Sitting σ Piece := do
  let piece ← onDescent Descent.initialPiece
  hold piece
  return piece

/-- Take the piece through the frames of one generation, and tell its interest. -/
def advance [Host] : Sitting σ Float := do
  let (piece, outcome) := Descent.advance (← config) (← held)
  hold piece
  onDescent (Descent.fromSetting outcome)

/-- Replace the piece by its child, and tell the program and the interest. -/
def spawn [Host] [Draw.Source σ] : Sitting σ (Text.Codes × Float) := do
  let _ ← onDescent (Descent.need ((← config).whole? .maxRetries))
  let (child, interest) ← onDescent (Descent.spawn (← held))
  hold child
  return (child.code, interest)

/-- The picture of the piece. -/
def snapshot [Host] : Sitting σ Picture := do
  let _ ← onDescent (Descent.fromSetting (Descent.pictureSize (← config)))
  onDescent (Descent.fromSetting (Descent.snapshot (← config) (← held)))

/-- Draw the piece into a file, if the settings name a directory, and tell its path. -/
def saveFrame [Host] : Sitting σ (Option String) := do
  match ← onDescent Descent.frameDirectory with
  | none => return none
  | some _ =>
    let _ ← onDescent (Descent.fromSetting (Descent.pictureSize (← config)))
    onDescent (Descent.saveFrame (← held))

/-- A whole run from the piece, if one is held. The piece is left at the end of its first generation. -/
def run [Host] [Draw.Source σ] : Sitting σ Descent.Results := do
  onDescent Descent.announce
  let start := (← get).piece
  if let some piece := start then hold (Descent.advance (← config) piece).1
  onDescent (Descent.runGenerations start)

end Session

end ProgramArt
