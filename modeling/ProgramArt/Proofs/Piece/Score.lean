import ProgramArt.Piece.Basic
import ProgramArt.Proofs.Datum.Magnitude
import ProgramArt.Proofs.Number.Bounds
import ProgramArt.Proofs.Number.Nearest

/-!
# Scores are numbers

The interest of a piece is a quotient of a whole number or a part that was compared with one. Neither is ever NaN
(`isNaN_score`), so the interests of a line of descent can always be ranked.
-/

namespace ProgramArt

/-! ## Scores -/

theorem TapePiece.isNaN_score (piece : TapePiece) : piece.score.isNaN = false := by
  unfold TapePiece.score
  -- a hundred is finite and not zero
  exact Binary64.isNaN_div (Binary64.isNaN_roundRatio _ _ _) rfl

theorem BeatPiece.isNaN_score [Host] (piece : BeatPiece) : piece.score.isNaN = false := by
  unfold BeatPiece.score Interest.ofPixels Interest.ofBytes
  split
  · decide
  · dsimp only
    -- the part of the pixels is cut off at one, so it has been compared
    split
    · rename_i hless
      exact Binary64.isNaN_of_lt hless
    · decide

/-- **No piece scores NaN.** -/
theorem Piece.isNaN_score [Host] (piece : Piece) : piece.score.isNaN = false := by
  cases piece with
  | tape piece => exact piece.isNaN_score
  | beat piece => exact piece.isNaN_score

/-- A double that is no NaN has a magnitude. -/
theorem isSome_magnitude? {x : Float} (h : x.isNaN = false) : (Datum.float x).magnitude?.isSome = true := by
  change (Magnitude.ofFloat? x).isSome = true
  unfold Magnitude.ofFloat?
  cases hparts : Binary64.parts x with
  | nan =>
    rw [Binary64.isNaN_iff.mpr hparts] at h
    cases h
  | infinite negative => rfl
  | finite negative mantissa exponent => rfl

/-- Every number but NaN has a magnitude. -/
theorem Datum.isSome_magnitude?_of_isNumber {a : Datum} (hnumber : a.isNumber = true) (h : a.isNaN = false) :
    a.magnitude?.isSome = true := by
  cases a with
  | bool _ | int _ => rfl
  | float x => exact ProgramArt.isSome_magnitude? h
  | nan _ => cases h
  | _ => cases hnumber

end ProgramArt
