import ProgramArt.Beat.Command
import ProgramArt.Beat.Eval
import ProgramArt.Beat.Literal
import ProgramArt.Beat.Narration
import ProgramArt.Beat.Program
import ProgramArt.Beat.Raster
import ProgramArt.Beat.Token
import ProgramArt.Beat.Value
import ProgramArt.Beat.View
import ProgramArt.CommandLine.Launch
import ProgramArt.CommandLine.Options
import ProgramArt.Config.Basic
import ProgramArt.Config.File
import ProgramArt.Datum.Basic
import ProgramArt.Datum.Depth
import ProgramArt.Datum.Members
import ProgramArt.Datum.Moment
import ProgramArt.Datum.Order
import ProgramArt.Decimal.Layout
import ProgramArt.Decimal.Reader
import ProgramArt.Decimal.Shortest
import ProgramArt.Decimal.Typed
import ProgramArt.Descent.Basic
import ProgramArt.Descent.Run
import ProgramArt.Descent.Session
import ProgramArt.Draw.Digest
import ProgramArt.Draw.Generator
import ProgramArt.Draw.Seed
import ProgramArt.Draw.Source
import ProgramArt.Draw.Twister
import ProgramArt.Evolution.Basic
import ProgramArt.Evolution.Beat
import ProgramArt.Evolution.Tape
import ProgramArt.Folder.Basic
import ProgramArt.Folder.Fault
import ProgramArt.Folder.Item
import ProgramArt.Folder.Making
import ProgramArt.Folder.Path
import ProgramArt.Host
import ProgramArt.Host.Standard
import ProgramArt.Index
import ProgramArt.Interest
import ProgramArt.Json.Printer
import ProgramArt.Json.Reader
import ProgramArt.Lineage.Archive
import ProgramArt.Lineage.Basic
import ProgramArt.Lineage.Summary
import ProgramArt.Main
import ProgramArt.Number.Binary64
import ProgramArt.Number.Power
import ProgramArt.Number.Residue
import ProgramArt.Number.Series
import ProgramArt.Number.Summation
import ProgramArt.Number.Trig
import ProgramArt.Number.Word64
import ProgramArt.Picture.Basic
import ProgramArt.Picture.Png
import ProgramArt.Piece.Basic
import ProgramArt.Piece.Picture
import ProgramArt.Piece.Sizes
import ProgramArt.Proofs.Tape.Machine
import ProgramArt.Proofs.Tape.Matching
import ProgramArt.Proofs.Tape.Nesting
import ProgramArt.Ranking.Arrange
import ProgramArt.Ranking.Merge
import ProgramArt.Ranking.Run
import ProgramArt.Tape.Input
import ProgramArt.Tape.Instr
import ProgramArt.Tape.Narration
import ProgramArt.Tape.Program
import ProgramArt.Tape.Run
import ProgramArt.Tape.State
import ProgramArt.Text.Aligned
import ProgramArt.Text.Blank
import ProgramArt.Text.Classes
import ProgramArt.Text.Code
import ProgramArt.Text.Digit
import ProgramArt.Text.Lines
import ProgramArt.Text.Quoted
import ProgramArt.Text.Small
import ProgramArt.Text.Split
import ProgramArt.Yaml.Binary
import ProgramArt.Yaml.Cursor
import ProgramArt.Yaml.Document
import ProgramArt.Yaml.Node
import ProgramArt.Yaml.Plain
import ProgramArt.Yaml.Scalar
import ProgramArt.Yaml.Token
import ProgramArt.Yaml.Value
import ProgramArt.Proofs.Tape.Structured
import ProgramArt.Proofs.Tape.Invariant
import ProgramArt.Proofs.Number.Nearest
import ProgramArt.Proofs.Decimal.Shortest
import ProgramArt.Proofs.Decimal.ReadBack
import ProgramArt.Proofs.Text.Words
import ProgramArt.Proofs.Outcome
import ProgramArt.Proofs.Draw.Lawful
import ProgramArt.Proofs.Evolution.Mutation
import ProgramArt.Proofs.Evolution.Random
import ProgramArt.Proofs.Piece.Score
import ProgramArt.Proofs.Piece.Steady
import ProgramArt.Proofs.Piece.FromText
import ProgramArt.Proofs.Lineage.Ranking
import ProgramArt.Proofs.Descent.Steps
import ProgramArt.Proofs.Descent.Line
import ProgramArt.Proofs.Descent.Unbroken
import ProgramArt.Proofs.Descent.Reproduce
import ProgramArt.Proofs.Descent.Refusal
import ProgramArt.Proofs.Descent.Safety
import ProgramArt.Proofs.Beat.Safety
import ProgramArt.Proofs.Beat.Tree
import ProgramArt.Proofs.Beat.Heights
import ProgramArt.Proofs.Beat.Text
import ProgramArt.Proofs.Tape.Endless
import ProgramArt.Proofs.Tape.Growth
import ProgramArt.Proofs.Tape.Policies
import ProgramArt.Proofs.Tape.Rotation
import ProgramArt.Proofs.Number.Bounds
import ProgramArt.Proofs.Piece.Range
import ProgramArt.Proofs.Tape.Records
import ProgramArt.Proofs.Piece.Frames
import ProgramArt.Proofs.Descent.Advance
import ProgramArt.Proofs.Evolution.Idle
import ProgramArt.Proofs.Piece.Heirs
import ProgramArt.Proofs.Tape.Grammar
import ProgramArt.Proofs.Tape.Pairing
import ProgramArt.Proofs.Text.Codes
import ProgramArt.Proofs.Json.Numbers
import ProgramArt.Proofs.Json.Texts
import ProgramArt.Proofs.Json.Values
import ProgramArt.Proofs.Json.RoundTrip
import ProgramArt.Proofs.Lineage.Opening
import ProgramArt.Proofs.Folder.Items
import ProgramArt.Proofs.Folder.Places
import ProgramArt.Proofs.Folder.Paths
import ProgramArt.Proofs.Folder.Making
import ProgramArt.Proofs.Lineage.Saving
import ProgramArt.Proofs.Lineage.Persistence
import ProgramArt.Proofs.Beat.Machine
import ProgramArt.Proofs.Beat.Bytes
import ProgramArt.Proofs.Evolution.Ledger
import ProgramArt.Proofs.Evolution.Skeleton
import ProgramArt.Proofs.Descent.Skeleton
import ProgramArt.Proofs.Evolution.Families
import ProgramArt.Proofs.Datum.Magnitude
import ProgramArt.Proofs.Number.Order
import ProgramArt.Proofs.Number.Rounding
import ProgramArt.Proofs.Beat.Comparisons
import ProgramArt.Proofs.Beat.Scratch
import ProgramArt.Proofs.Beat.Remarks
import ProgramArt.Proofs.Decimal.Numerals
import ProgramArt.Proofs.Beat.Grammar
import ProgramArt.Proofs.Tape.Effects
import ProgramArt.Proofs.Picture.Pixels
import ProgramArt.Proofs.Piece.Squares
import ProgramArt.Proofs.Piece.Scaling
import ProgramArt.Proofs.Descent.Rerolls
import ProgramArt.Proofs.Tape.Echo
import ProgramArt.Proofs.Text.Columns
import ProgramArt.Proofs.Tape.Pointer
import ProgramArt.Proofs.Lineage.Selection
import ProgramArt.Proofs.Interest.Variance
