import ProgramArt.Host.Standard
import ProgramArt.Proofs.Beat.Images
import ProgramArt.Proofs.Piece.Steady
import ProgramArt.Proofs.Tape.Records

/-!
# Back to the first frame

A piece is updated and reset over and over: it is `Piece.handled`. A tape piece that is reset is the piece that was
built. A formula piece still holds the last image that was computed, until an update computes another one
(`Handling.Draws`). From then on it is the piece that was built too.
-/

namespace ProgramArt

/-! ## Handling a piece -/

/-- What is done with a piece that is shown. -/
inductive Handling where
  | update (speed : Datum) (controls : Beat.Controls)
  | reset

namespace Piece

/-- A piece after one update or reset. What an update reached before it failed is kept. -/
def handle [Host] (piece : Piece) : Handling → Piece
  | .update speed controls => (piece.update speed controls).1
  | .reset => piece.reset

/-- A piece after updates and resets in order. -/
def handled [Host] (piece : Piece) (handlings : List Handling) : Piece :=
  handlings.foldl handle piece

@[simp]
theorem handled_nil [Host] (piece : Piece) : piece.handled [] = piece := rfl

@[simp]
theorem handled_cons [Host] (piece : Piece) (first : Handling) (rest : List Handling) :
    piece.handled (first :: rest) = (piece.handle first).handled rest := rfl

/-- The settings of a piece, as those of a new one. -/
def options : Piece → PieceOptions
  | .tape piece =>
    { inputText := some (.str piece.inputText), pixelSize := some piece.pixelSize, policy := some piece.state.policy }
  | .beat piece => { width := some (.int piece.width), height := some (.int piece.height) }

/-- A new piece of the same program with the same settings. -/
def rebuild [Host] : Piece → Except PieceError Piece
  | .tape piece => ofTape piece.program (options (.tape piece))
  | .beat piece => ofBeat piece.program (options (.beat piece))

/-- A piece as it is built, of the same program with the same settings. -/
def anew : Piece → Piece
  | .tape piece => .tape (.start piece.program piece.inputText piece.pixelSize piece.state.policy)
  | .beat piece => .beat (.start piece.program piece.width piece.height)

theorem wholeSide_natCast (n : Nat) : wholeSide (.int n) = .ok n ∨ wholeSide (.int n) = .error .sideTooLong := by
  rw [wholeSide]
  split
  · exact .inr rfl
  · exact .inl rfl

theorem imageSize_natCast [Host] {width height bytes : Nat} {size : Nat × Nat}
    (h : imageSize (.int width) (.int height) bytes = .ok size) : size = (width, height) := by
  unfold imageSize at h
  rcases wholeSide_natCast height with hheight | hheight
  · rcases wholeSide_natCast width with hwidth | hwidth
    · have hsides : ¬ ((width : Int) < 0 ∨ (height : Int) < 0) := by omega
      rw [hheight, hwidth] at h
      dsimp only [bind, Except.bind] at h
      rw [if_neg hsides] at h
      cases hallot : allot bytes [(height : Int).toNat, (width : Int).toNat] with
      | error e =>
        rw [hallot] at h
        cases h
      | ok _ =>
        rw [hallot] at h
        cases h
        rfl
    · rw [hheight, hwidth] at h
      cases h
  · rw [hheight] at h
    cases h

theorem eq_anew_of_rebuild [Host] {piece fresh : Piece} (h : piece.rebuild = .ok fresh) : fresh = piece.anew := by
  cases piece with
  | tape piece =>
    unfold rebuild ofTape tapePolicy at h
    dsimp only [options, Option.getD_some] at h
    cases hfresh : Tape.State.fresh piece.state.policy with
    | error e =>
      rw [hfresh] at h
      cases h
    | ok state =>
      rw [hfresh] at h
      cases h
      rfl
  | beat piece =>
    unfold rebuild ofBeat at h
    dsimp only [options, Option.getD_some] at h
    cases hsize : imageSize (.int piece.width) (.int piece.height) 1 with
    | error e =>
      rw [hsize] at h
      cases h
    | ok size =>
      rw [hsize, imageSize_natCast hsize] at h
      cases h
      rfl

/-- A run leaves what a piece is built from: the policy of the tape is kept by every step. -/
theorem anew_run [Host] (piece : TapePiece) (steps : Nat) : (tape (piece.run steps).1).anew = (tape piece).anew := by
  have hpolicy := (Tape.keeps_run piece.program steps piece.state piece.input).policy
  dsimp only [anew, TapePiece.run]
  rw [hpolicy]

theorem anew_handle [Host] (piece : Piece) (handling : Handling) : (piece.handle handling).anew = piece.anew := by
  cases piece with
  | tape piece =>
    cases handling with
    | reset => rfl
    | update speed controls =>
      unfold handle update TapePiece.update
      dsimp only
      split
      · exact anew_run piece _
      · rfl
  | beat piece =>
    cases handling with
    | reset => rfl
    | update speed controls =>
      have hmakings := (beat piece).makings_update speed controls
      cases hafter : ((beat piece).update speed controls).1 with
      | tape after =>
        rw [hafter] at hmakings
        cases hmakings
      | beat after =>
        rw [hafter] at hmakings
        obtain ⟨hprogram, hwidth, hheight⟩ :
            after.program = piece.program ∧ after.width = piece.width ∧ after.height = piece.height := by
          simpa [makings] using hmakings
        rw [handle, hafter]
        dsimp only [anew]
        rw [hprogram, hwidth, hheight]

/-- **Handling a piece leaves what it is built from.** -/
theorem anew_handled [Host] (piece : Piece) (handlings : List Handling) :
    (piece.handled handlings).anew = piece.anew := by
  induction handlings generalizing piece with
  | nil => rfl
  | cons first rest ih => rw [handled_cons, ih, anew_handle]

/-- A tape piece that is reset is as it is built. -/
theorem reset_of_anew_tape {piece : Piece} {start : TapePiece} (h : piece.anew = .tape start) :
    piece.reset = .tape start := by
  cases piece with
  | tape piece => exact h
  | beat piece => cases h

/-- A formula piece that is reset is as it is built, but for its image. -/
theorem reset_of_anew_beat {piece : Piece} {start : BeatPiece} (h : piece.anew = .beat start) :
    ∃ last, piece = .beat last ∧ piece.reset = .beat { start with image := last.image } := by
  cases piece with
  | tape piece => cases h
  | beat piece =>
    cases h
    exact ⟨piece, rfl, rfl⟩

end Piece

/-! ## Runs in parts -/

namespace TapePiece

variable {piece : TapePiece}

/-- A run that is taken up again is one run. -/
theorem run_run [Host] (n k : Nat) (h : (piece.run n).2 = none) : (piece.run n).1.run k = piece.run (n + k) := by
  have hfault : (Tape.run piece.program n piece.state piece.input).fault = none := by
    simpa [run] using h
  dsimp only [run]
  rw [Tape.run_add n k hfault, Tape.runFrom_eq_run]

/-- A run that has failed does not go on. -/
theorem run_of_fault [Host] (n k : Nat) (h : (piece.run n).2 ≠ none) : piece.run (n + k) = piece.run n := by
  have hfault : (Tape.run piece.program n piece.state piece.input).fault ≠ none := by
    simpa [run] using h
  dsimp only [run]
  rw [Tape.run_add_of_fault n k hfault]

end TapePiece

/-! ## Images -/

namespace BeatPiece

variable {piece : BeatPiece} {controls : Beat.Controls}

/-- The image that an update of a piece computes. -/
def rendered [Host] (piece : BeatPiece) (controls : Beat.Controls) : Except Beat.EvalError Beat.Raster :=
  Beat.render piece.program piece.width piece.height piece.frame.toDatum controls

/-- An update without a new image changes nothing. -/
theorem update_of_error [Host] {e : Beat.EvalError} (h : piece.rendered controls = .error e) (speed : Datum) :
    piece.update speed controls = (piece, some (.eval e)) := by
  unfold rendered at h
  rw [update, h]

/-- An update with a new image forgets the one before. -/
theorem update_of_ok [Host] {image : Beat.Raster} (h : piece.rendered controls = .ok image) (speed : Datum)
    (before : Beat.Raster) : { piece with image := before }.update speed controls = piece.update speed controls := by
  unfold rendered at h
  unfold update
  rw [h]

end BeatPiece

/-- An update computes an image of a formula piece that is at its first frame. -/
def Handling.Draws [Host] (piece : BeatPiece) : Handling → Prop
  | .update _ controls =>
    ∃ image, Beat.render piece.program piece.width piece.height (.int 0) controls = .ok image
  | .reset => False

namespace Piece

section FirstFrame

variable {piece : BeatPiece} (hframe : piece.frame = .int 0)
include hframe

theorem handle_of_not_draws [Host] {handling : Handling} (h : ¬ handling.Draws piece) :
    (beat piece).handle handling = beat piece := by
  cases handling with
  | reset =>
    show beat { piece with frame := .int 0 } = beat piece
    rw [← hframe]
  | update speed controls =>
    cases hrendered : piece.rendered controls with
    | ok image =>
      rw [BeatPiece.rendered, hframe] at hrendered
      exact absurd ⟨image, hrendered⟩ h
    | error e =>
      show beat (piece.update speed controls).1 = beat piece
      rw [BeatPiece.update_of_error hrendered]

theorem handle_of_draws [Host] {handling : Handling} (h : handling.Draws piece) (before : Beat.Raster) :
    (beat { piece with image := before }).handle handling = (beat piece).handle handling := by
  cases handling with
  | reset => exact h.elim
  | update speed controls =>
    obtain ⟨image, himage⟩ := h
    have hrendered : piece.rendered controls = .ok image := by
      rw [BeatPiece.rendered, hframe]
      exact himage
    show beat ({ piece with image := before }.update speed controls).1 = beat (piece.update speed controls).1
    rw [BeatPiece.update_of_ok hrendered]

/-- Without a new image a piece stays at its first frame, with the image that it has. -/
theorem handled_of_not_draws [Host] {handlings : List Handling} (h : ∀ handling ∈ handlings, ¬ handling.Draws piece) :
    (beat piece).handled handlings = beat piece := by
  induction handlings with
  | nil => rfl
  | cons first rest ih =>
    rw [List.forall_mem_cons] at h
    rw [handled_cons, handle_of_not_draws hframe h.1, ih h.2]

/-- **With the first new image the one before is forgotten.** Until then a piece stays at its first frame, so the
first update that has an image has it from either piece. -/
theorem handled_of_draws [Host] {handlings : List Handling} (h : ∃ handling ∈ handlings, handling.Draws piece)
    (before : Beat.Raster) :
    (beat { piece with image := before }).handled handlings = (beat piece).handled handlings := by
  induction handlings with
  | nil => simp at h
  | cons first rest ih =>
    rw [handled_cons, handled_cons]
    by_cases hfirst : first.Draws piece
    · rw [handle_of_draws hframe hfirst]
    · have hrest : ∃ handling ∈ rest, handling.Draws piece := by
        obtain ⟨handling, hmem, hdraws⟩ := h
        rcases List.mem_cons.mp hmem with rfl | hmem
        · exact absurd hdraws hfirst
        · exact ⟨handling, hmem, hdraws⟩
      have hbefore : ({ piece with image := before } : BeatPiece).frame = .int 0 := hframe
      rw [handle_of_not_draws hframe hfirst, handle_of_not_draws hbefore hfirst]
      exact ih hrest

end FirstFrame

/-- Whether an update fails, and how, does not depend on the image before it. -/
theorem fault_update_image [Host] (piece : BeatPiece) (speed : Datum) (controls : Beat.Controls)
    (before : Beat.Raster) :
    ((beat { piece with image := before }).update speed controls).2 = ((beat piece).update speed controls).2 := by
  show ({ piece with image := before }.update speed controls).2 = (piece.update speed controls).2
  cases hrendered : piece.rendered controls with
  | ok image => rw [BeatPiece.update_of_ok hrendered]
  | error e =>
    rw [BeatPiece.update_of_error hrendered]
    have hother : ({ piece with image := before } : BeatPiece).rendered controls = .error e := hrendered
    rw [BeatPiece.update_of_error hother]

/-! ## Pieces that are reset -/

/-- **A piece that is reset is as good as new, but for the image of a formula.** Let a piece be updated and reset in
any way, and then reset once more. If it is a tape piece, it is the piece that is built anew from the same program
with the same settings, with all that can be seen of it from then on. If it is a formula piece, it still shows and
scores the last image that was computed: it is the new piece only if that image is black. Updates that compute
no image leave both pieces as they are, and from the first one on that computes an image the two are the same. With
literals in the range of words and with controls at numbers every update computes an image. In between an
update also fails on both pieces, and for the same reason, or on none. -/
theorem reset_handled [Host] {piece fresh : Piece} (hfresh : piece.rebuild = .ok fresh) (past : List Handling) :
    (∀ last : TapePiece, piece.handled past = .tape last → (piece.handled past).reset = fresh)
    ∧ ∀ last : BeatPiece, piece.handled past = .beat last →
      (piece.handled past).reset.score = (piece.handled past).score
      ∧ (∀ width height, (piece.handled past).reset.draw width height = (piece.handled past).draw width height)
      ∧ ((piece.handled past).reset = fresh ↔ last.image = .black last.width last.height)
      ∧ (∀ future, (∃ handling ∈ future, handling.Draws last) →
        (piece.handled past).reset.handled future = fresh.handled future)
      ∧ (∀ future, (∀ handling ∈ future, ¬ handling.Draws last) →
        (piece.handled past).reset.handled future = (piece.handled past).reset ∧ fresh.handled future = fresh)
      ∧ (∀ future speed controls, (((piece.handled past).reset.handled future).update speed controls).2
        = ((fresh.handled future).update speed controls).2)
      ∧ ((∀ cmd ∈ last.program.cmds, cmd.FitsWord) → ∀ speed controls, controls.Numeric →
        (Handling.update speed controls).Draws last) := by
  obtain rfl := eq_anew_of_rebuild hfresh
  have hanew := anew_handled piece past
  rw [← hanew]
  constructor
  · intro last hlast
    rw [hlast]
    rfl
  · intro last hlast
    rw [hlast]
    dsimp only [anew]
    -- what is left of the past is the image
    have hback : (beat last).reset
        = beat { BeatPiece.start last.program last.width last.height with image := last.image } := rfl
    have hframe : (BeatPiece.start last.program last.width last.height).frame = .int 0 := rfl
    have hdrawn (future : List Handling) (hdraws : ∃ handling ∈ future, handling.Draws last) :
        (beat last).reset.handled future = (beat (.start last.program last.width last.height)).handled future := by
      rw [hback]
      exact handled_of_draws hframe hdraws last.image
    have hidle (future : List Handling) (hdraws : ∀ handling ∈ future, ¬ handling.Draws last) :
        (beat last).reset.handled future = (beat last).reset
        ∧ (beat (.start last.program last.width last.height)).handled future
          = beat (.start last.program last.width last.height) := by
      constructor
      · have hreset : last.reset.frame = .int 0 := rfl
        exact handled_of_not_draws hreset hdraws
      · exact handled_of_not_draws hframe hdraws
    refine ⟨rfl, fun _ _ => rfl, ?_, hdrawn, hidle, ?_, ?_⟩
    · rw [hback]
      constructor
      · intro heq
        exact congrArg BeatPiece.image (Piece.beat.inj heq)
      · intro hblack
        rw [hblack]
        rfl
    · intro future speed controls
      by_cases hdraws : ∃ handling ∈ future, handling.Draws last
      · rw [hdrawn future hdraws]
      · have hnone : ∀ handling ∈ future, ¬ handling.Draws last := fun handling hmem h =>
          hdraws ⟨handling, hmem, h⟩
        obtain ⟨hleft, hright⟩ := hidle future hnone
        rw [hleft, hright, hback]
        exact fault_update_image _ speed controls last.image
    · intro hcmds speed controls hcontrols
      exact Beat.exists_render hcmds hcontrols (.int 0) last.width last.height

/-- Columns of black and of white in turn: `sx 255 *`. -/
def stripes : Beat.Program := ⟨[.var .screenX, .int 255, .intOp .mul], 1, rfl, by decide⟩

open scoped Host in
theorem ofText_stripes : ofText .beat (Text.codesOf "sx 255 *") { width := some (.int 2), height := some (.int 1) }
    = .ok (.beat (.start stripes 2 1)) := rfl

theorem update_stripes [Host] : (beat (.start stripes 2 1)).update (.int 1) {}
    = (.beat ⟨stripes, 2, 1, .int 1, [[0, 255]]⟩, none) := rfl

open scoped Host in
/-- Reset after a frame, stripes are not as new, but they are after one more frame. A tape that has grown is as
new at once. -/
theorem reset_handled_stripes :
    (∃ fresh last,
      ofText .beat (Text.codesOf "sx 255 *") { width := some (.int 2), height := some (.int 1) } = .ok fresh
      ∧ fresh.rebuild = .ok fresh ∧ fresh.handled [.update (.int 1) {}] = .beat last
      ∧ (Handling.update (.int 3) {}).Draws last
      ∧ (fresh.handled [.update (.int 1) {}]).reset ≠ fresh
      ∧ (fresh.handled [.update (.int 1) {}]).reset.handled [.reset, .update (.int 3) {}]
        = fresh.handled [.reset, .update (.int 3) {}])
    ∧ ∃ fresh last, ofText .tape (Text.codesOf "+[>,+]") { policy := some (.grow 64) } = .ok fresh
      ∧ fresh.rebuild = .ok fresh ∧ fresh.handled [.update (.int 9000) {}] = .tape last
      ∧ (fresh.handled [.update (.int 9000) {}]).reset = fresh := by
  have hrebuild : (beat (.start stripes 2 1)).rebuild = .ok (.beat (.start stripes 2 1)) := rfl
  have hlast : (beat (.start stripes 2 1)).handled [.update (.int 1) {}]
      = .beat ⟨stripes, 2, 1, .int 1, [[0, 255]]⟩ := congrArg Prod.fst update_stripes
  obtain ⟨_, _, hblack, hdrawn, _, _, hdraws⟩ := (reset_handled hrebuild [.update (.int 1) {}]).2 _ hlast
  have hupdate := hdraws (by decide) (.int 3) {} (by decide)
  refine ⟨⟨_, _, ofText_stripes, hrebuild, hlast, hupdate, ?_, ?_⟩, ?_⟩
  · rw [Ne, hblack]
    decide
  · exact hdrawn _ ⟨_, by simp, hupdate⟩
  · obtain ⟨fresh, hfresh⟩ : ∃ fresh : TapePiece,
        ofText .tape (Text.codesOf "+[>,+]") { policy := some (.grow 64) } = .ok (.tape fresh)
        ∧ (tape fresh).rebuild = .ok (.tape fresh) := ⟨_, rfl, rfl⟩
    exact ⟨_, _, hfresh.1, hfresh.2, rfl, (reset_handled hfresh.2 [.update (.int 9000) {}]).1 _ rfl⟩

open scoped Host in
/-- **A formula piece that is reset is not a new one.** It keeps the picture and the score of its last image. -/
theorem reset_keeps_image : ∃ fresh shown,
    ofText .beat (Text.codesOf "sx 255 *") { width := some (.int 2), height := some (.int 1) } = .ok fresh
    ∧ fresh.update (.int 1) {} = (shown, none)
    ∧ fresh.score < shown.reset.score
    ∧ fresh.draw 2 1 = .ok [[⟨0, 0, 0⟩, ⟨0, 0, 0⟩]]
    ∧ shown.reset.draw 2 1 = .ok [[⟨0, 0, 0⟩, ⟨0, 255, 0⟩]] := by
  refine ⟨_, _, ofText_stripes, update_stripes, ?_, ?_, ?_⟩
  · decide +kernel
  · decide +kernel
  · decide +kernel

end Piece

end ProgramArt
