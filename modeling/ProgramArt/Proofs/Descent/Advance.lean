import ProgramArt.Host.Standard
import ProgramArt.Proofs.Descent.Steps
import ProgramArt.Proofs.Piece.Frames
import ProgramArt.Proofs.Tape.Growth

/-!
# The frames of a generation

A generation shows a piece from its first frame on. The frames of a tape are parts of one run, and cutting a run into
frames does not change it (`frames_tape`). The last frame of a formula is computed from its number alone
(`frames_beat`). So what comes of a generation depends on the program and the settings, and not on what was done with
the piece before (`advance_handled`).
-/

namespace ProgramArt

/-! ## The frames of a tape -/

namespace Descent

/-- **The frames of a tape are one run.** It makes no difference where the run is cut, and neither does it if it
halts or fails within a frame. -/
theorem frames_tape [Host] (limit : Int) (count : Nat) (piece : TapePiece) :
    frames (.int limit) count (.tape piece)
      = (.tape (piece.run (count * (min limit 2000000).toNat)).1,
          (piece.run (count * (min limit 2000000).toNat)).2) := by
  induction count generalizing piece with
  | zero =>
    rw [Nat.zero_mul]
    rfl
  | succ count ih =>
    have hsteps : (count + 1) * (min limit 2000000).toNat
        = (min limit 2000000).toNat + count * (min limit 2000000).toNat := by
      rw [Nat.add_mul, Nat.one_mul, Nat.add_comm]
    have hupdate : (Piece.tape piece).update (.int limit) {}
        = (.tape (piece.run (min limit 2000000).toNat).1, (piece.run (min limit 2000000).toNat).2) := by
      rw [Piece.update, Tape.update_limit]
    rw [frames, hupdate, hsteps]
    cases hfault : (piece.run (min limit 2000000).toNat).2 with
    | none =>
      dsimp only
      rw [ih, TapePiece.run_run _ _ hfault]
    | some e =>
      dsimp only
      rw [TapePiece.run_of_fault _ _ (by rw [hfault]; exact Option.some_ne_none e), hfault]

/-! ## The frames of a formula -/

section Beat

variable {piece : BeatPiece} {frame speed : Int}

/-- A frame with an image. -/
theorem update_of_render [Host] (hframe : piece.frame = .int frame) {image : Beat.Raster}
    (himage : Beat.render piece.program piece.width piece.height (.int frame) {} = .ok image) :
    (Piece.beat piece).update (.int speed) {} = (.beat { piece with frame := .int (frame + speed), image }, none) := by
  have hrendered : Beat.render piece.program piece.width piece.height piece.frame.toDatum {} = .ok image := by
    rw [hframe]
    exact himage
  have hupdate : piece.update (.int speed) {} = ({ piece with frame := .int (frame + speed), image }, none) := by
    unfold BeatPiece.update
    rw [hrendered, hframe]
    rfl
  rw [Piece.update, hupdate]

theorem frame_succ (frame speed : Int) (k : Nat) : frame + speed + k * speed = frame + (k + 1 : Nat) * speed := by
  rw [Int.natCast_add, Int.natCast_one, Int.add_mul, Int.one_mul]
  omega

/-- The frames of a formula, if each of them has an image: the last image stays. -/
theorem frames_beat [Host] (n : Nat) (hframe : piece.frame = .int frame)
    (himages : ∀ k < n, ∃ image,
      Beat.render piece.program piece.width piece.height (.int (frame + k * speed)) {} = .ok image)
    {last : Beat.Raster}
    (hlast : Beat.render piece.program piece.width piece.height (.int (frame + n * speed)) {} = .ok last) :
    frames (.int speed) (n + 1) (.beat piece)
      = (.beat { piece with frame := .int (frame + (n + 1 : Nat) * speed), image := last }, none) := by
  induction n generalizing piece frame with
  | zero =>
    have hlast' : Beat.render piece.program piece.width piece.height (.int frame) {} = .ok last := by
      simpa using hlast
    rw [frames, update_of_render hframe hlast']
    simp [frames]
  | succ n ih =>
    obtain ⟨image, himage⟩ := himages 0 (Nat.succ_pos n)
    rw [frames, update_of_render hframe (by simpa using himage)]
    dsimp only
    rw [ih rfl]
    · dsimp only
      rw [frame_succ]
    · intro k hk
      rw [frame_succ]
      exact himages (k + 1) (Nat.succ_lt_succ hk)
    · rw [frame_succ]
      exact hlast

/-- The first frame of a formula that has no image ends the frames. -/
theorem frames_beat_error [Host] (k : Nat) {n : Nat} (hk : k < n) (hframe : piece.frame = .int frame)
    (himages : ∀ j < k, ∃ image,
      Beat.render piece.program piece.width piece.height (.int (frame + j * speed)) {} = .ok image)
    {e : Beat.EvalError}
    (herror : Beat.render piece.program piece.width piece.height (.int (frame + k * speed)) {} = .error e) :
    (frames (.int speed) n (.beat piece)).2 = some (.eval e) := by
  induction k generalizing n piece frame with
  | zero =>
    obtain ⟨n, rfl⟩ := Nat.exists_eq_add_of_lt hk
    have hrendered : piece.rendered {} = .error e := by
      rw [Int.natCast_zero, Int.zero_mul, Int.add_zero] at herror
      rw [BeatPiece.rendered, hframe]
      exact herror
    rw [frames, Piece.update, BeatPiece.update_of_error hrendered]
  | succ k ih =>
    obtain ⟨n, rfl⟩ := Nat.exists_eq_add_of_lt hk
    obtain ⟨image, himage⟩ := himages 0 (Nat.succ_pos k)
    rw [frames, update_of_render hframe (by simpa using himage)]
    dsimp only
    refine ih (by omega) rfl ?_ ?_
    · intro j hj
      rw [frame_succ]
      exact himages (j + 1) (Nat.succ_lt_succ hj)
    · rw [frame_succ]
      exact herror

end Beat

/-! ## Generations -/

theorem anew_frames [Host] (speed : Datum) (count : Nat) (piece : Piece) :
    (frames speed count piece).1.anew = piece.anew :=
  frames_keep (fun piece => piece.anew_handle (.update speed {})) count piece

/-- With an image for its first frame it makes no difference which image a piece had before. -/
theorem frames_succ_image [Host] {start : BeatPiece} {image : Beat.Raster} (h : start.rendered {} = .ok image)
    (speed : Datum) (count : Nat) (before : Beat.Raster) :
    frames speed (count + 1) (.beat { start with image := before }) = frames speed (count + 1) (.beat start) := by
  rw [frames, frames, Piece.update, Piece.update, BeatPiece.update_of_ok h]

/-- **Frames that are shown again are the same.** A tape is reset to the piece that was built. A formula has the image
of its first frame again, or it had none and kept the image that it has. -/
theorem frames_again [Host] (speed : Datum) (count : Nat) (piece : Piece) :
    frames speed count (frames speed count piece.reset).1.reset = frames speed count piece.reset := by
  have hanew : (frames speed count piece.reset).1.anew = piece.anew :=
    (anew_frames speed count piece.reset).trans (piece.anew_handle .reset)
  have hreset : piece.reset.reset = piece.reset := by cases piece <;> rfl
  cases hstart : piece.anew with
  | tape start =>
    rw [Piece.reset_of_anew_tape (hanew.trans hstart), Piece.reset_of_anew_tape hstart]
  | beat start =>
    obtain ⟨first, _, hfirst⟩ := Piece.reset_of_anew_beat hstart
    obtain ⟨last, _, hlast⟩ := Piece.reset_of_anew_beat (hanew.trans hstart)
    cases count with
    | zero =>
      show frames speed 0 piece.reset.reset = frames speed 0 piece.reset
      rw [hreset]
    | succ count =>
      cases hrendered : start.rendered {} with
      | ok image =>
        rw [hlast, hfirst]
        exact (frames_succ_image hrendered speed count last.image).trans
          (frames_succ_image hrendered speed count first.image).symm
      | error e =>
        have hkept : ({ start with image := first.image } : BeatPiece).rendered {} = .error e := hrendered
        have hstop : frames speed (count + 1) piece.reset = (piece.reset, some (.eval e)) := by
          rw [hfirst, frames, Piece.update, BeatPiece.update_of_error hkept]
        rw [hstop]
        dsimp only
        rw [hreset, hstop]

theorem speedOf_of_anew {config : Config} {piece other : Piece} (h : piece.anew = other.anew) :
    speedOf config piece = speedOf config other := by
  cases piece with
  | tape piece =>
    cases other with
    | tape other => rfl
    | beat other => cases h
  | beat piece =>
    cases other with
    | tape other => cases h
    | beat other => rfl

/-- The interest of a piece after its frames, unless one of them has failed. -/
def interestOf [Host] (last : Piece) : Option PieceError → Except DescentError Float
  | none => .ok last.score
  | some e => .error (.piece e)

/-- A generation from the frames that it shows. -/
theorem advance_of_frames [Host] {config : Config} {count : Int}
    (hcount : config.whole? .framesPerGeneration = some count) {piece last : Piece} {fault : Option PieceError}
    (h : frames (speedOf config piece) count.toNat piece.reset = (last, fault)) :
    advance config piece = (last, interestOf last fault) := by
  unfold advance
  rw [hcount]
  dsimp only
  rw [h]
  cases fault <;> rfl

/-- **A generation that is shown again is the same.** -/
theorem advance_advance [Host] (config : Config) (piece : Piece) :
    advance config (advance config piece).1 = advance config piece := by
  cases hcount : config.whole? .framesPerGeneration with
  | none =>
    have hrefused (other : Piece) : advance config other = (other.reset, .error .wrongType) := by
      rw [advance, hcount]
    rw [hrefused, hrefused]
    cases piece <;> rfl
  | some count =>
    obtain ⟨last, fault, hframes⟩ : ∃ last fault,
        frames (speedOf config piece) count.toNat piece.reset = (last, fault) := ⟨_, _, rfl⟩
    have hanew : last.anew = piece.anew := by
      have h := anew_frames (speedOf config piece) count.toNat piece.reset
      rw [hframes] at h
      exact h.trans (piece.anew_handle .reset)
    have hagain := frames_again (speedOf config piece) count.toNat piece
    rw [hframes] at hagain
    rw [advance_of_frames hcount hframes]
    rw [← speedOf_of_anew hanew] at hagain
    exact advance_of_frames hcount hagain

section Settings

variable {config : Config} {count : Int} (hcount : config.value .framesPerGeneration = .int count)
include hcount

theorem whole?_of_value : config.whole? .framesPerGeneration = some count := by
  rw [Config.whole?, hcount]

/-- A generation of a tape. -/
theorem advance_tape [Host] {limit : Int} (hlimit : config.value .stepLimit = .int limit) {piece : Piece}
    {start : TapePiece} (hstart : piece.anew = .tape start) :
    advance config piece
      = (.tape (start.run (count.toNat * (min limit 2000000).toNat)).1,
        interestOf (.tape (start.run (count.toNat * (min limit 2000000).toNat)).1)
          (start.run (count.toNat * (min limit 2000000).toNat)).2) := by
  have hspeed : speedOf config piece = .int limit := by
    cases piece with
    | tape piece => exact hlimit
    | beat piece => cases hstart
  refine advance_of_frames (whole?_of_value hcount) ?_
  rw [hspeed, Piece.reset_of_anew_tape hstart, frames_tape]

section Beat

variable {speed : Int} (hspeed : config.value .speed = .int speed) {piece : Piece} {program : Beat.Program}
  {width height : Nat} (hstart : piece.anew = .beat (.start program width height))
include hspeed hstart

omit hcount in
theorem exists_reset_beat : speedOf config piece = .int speed ∧ ∃ image,
    piece.reset = .beat { BeatPiece.start program width height with image } := by
  obtain ⟨last, rfl, hreset⟩ := Piece.reset_of_anew_beat hstart
  exact ⟨hspeed, last.image, hreset⟩

/-- A generation of a formula, if every frame of it has an image. -/
theorem advance_beat [Host] (hpos : 1 ≤ count)
    (himages : ∀ k : Nat, k < count → ∃ image, Beat.render program width height (.int (k * speed)) {} = .ok image) :
    ∃ last, Beat.render program width height (.int ((count - 1) * speed)) {} = .ok last
      ∧ advance config piece
        = (.beat ⟨program, width, height, .int (count * speed), last⟩, .ok (Interest.ofPixels last.flatten)) := by
  obtain ⟨n, rfl⟩ : ∃ n : Nat, count = (n + 1 : Nat) := ⟨(count - 1).toNat, by omega⟩
  obtain ⟨hspeedOf, image, hreset⟩ := exists_reset_beat hspeed hstart
  obtain ⟨last, hlast⟩ := himages n (by omega)
  have hframes : frames (.int speed) (n + 1) (.beat { BeatPiece.start program width height with image })
      = (.beat ⟨program, width, height, .int (0 + (n + 1 : Nat) * speed), last⟩, none) := by
    refine frames_beat n rfl ?_ ?_
    · intro k hk
      rw [Int.zero_add]
      exact himages k (by omega)
    · rw [Int.zero_add]
      exact hlast
  rw [Int.zero_add] at hframes
  refine ⟨last, ?_, ?_⟩
  · rw [Int.natCast_succ, Int.add_sub_cancel]
    exact hlast
  · rw [← hreset, ← hspeedOf] at hframes
    exact advance_of_frames (whole?_of_value hcount) hframes

/-- A generation of a formula ends with the first frame that has no image. -/
theorem advance_beat_error [Host] {k : Nat} (hk : k < count)
    (himages : ∀ j < k, ∃ image, Beat.render program width height (.int (j * speed)) {} = .ok image)
    {e : Beat.EvalError} (herror : Beat.render program width height (.int (k * speed)) {} = .error e) :
    (advance config piece).2 = .error (.piece (.eval e)) := by
  obtain ⟨hspeedOf, image, hreset⟩ := exists_reset_beat hspeed hstart
  have hfault : (frames (speedOf config piece) count.toNat piece.reset).2 = some (.eval e) := by
    rw [hspeedOf, hreset]
    refine frames_beat_error k (show k < count.toNat by omega) rfl ?_ ?_
    · intro j hj
      rw [Int.zero_add]
      exact himages j hj
    · rw [Int.zero_add]
      exact herror
  rw [advance_of_frames (whole?_of_value hcount) rfl, hfault]
  rfl

end Beat

end Settings

/-- On a tape that there is a run fails only if the tape cannot grow. -/
theorem room_of_fault [Host] {policy : Tape.Policy} (hpositive : policy.Positive) (program : Tape.Program) (n : Nat)
    (input : Tape.Input) {e : Tape.StepError} (h : (Tape.run program n (.blank policy) input).fault = some e) :
    ∃ chunk room, policy = .grow chunk ∧ Tape.cellCount chunk = .error room ∧ e = .room room := by
  cases policy with
  | ring modulus =>
    have hnone := (Tape.runFrom_onRing (Tape.onRing_ring program hpositive input) 0 n).2
    rw [Tape.run, hnone] at h
    cases h
  | grow chunk =>
    obtain ⟨room, he, hroom, _⟩ := (Tape.run_grow_fault_iff program hpositive input n e).mp h
    exact ⟨chunk, room, rfl, hroom, he⟩

/-- **What comes of a generation does not depend on what was done with the piece before.** A generation of a tape
leaves the piece where a single run of all its steps ends, and gives the interest of what that run has written. If
the run fails, which it does only on a tape that cannot grow, so does the generation. A generation of a formula
leaves the image of its last frame and the number of the next one, and gives the interest of that image, or it
fails with the first frame that has no image; with literals in the range of words there is none. Shown once more, a
generation leaves the same piece and gives the same interest. -/
theorem advance_handled [Host] {config : Config} {count limit speed : Int}
    (hcount : config.value .framesPerGeneration = .int count) (hlimit : config.value .stepLimit = .int limit)
    (hspeed : config.value .speed = .int speed) (past : List Handling) :
    (∀ (program : Tape.Program) (text : String) (size : Datum) (policy : Tape.Policy)
        (outcome : Tape.Outcome Tape.Input), policy.Positive →
      Tape.run program (count.toNat * (min limit 2000000).toNat) (.blank policy) (.cycle text) = outcome →
      (outcome.fault = none →
        advance config ((Piece.tape (.start program text size policy)).handled past)
          = (.tape ⟨program, text, size, outcome.state, outcome.input⟩,
            .ok (Binary64.ofNat (Interest.ofOutput (outcome.state.output.toList.map Int8.toInt)) / 100.0)))
      ∧ ∀ e, outcome.fault = some e →
        advance config ((Piece.tape (.start program text size policy)).handled past)
          = (.tape ⟨program, text, size, outcome.state, outcome.input⟩, .error (.piece (.step e)))
        ∧ ∃ chunk room, policy = .grow chunk ∧ Tape.cellCount chunk = .error room ∧ e = .room room)
    ∧ (∀ (program : Beat.Program) (width height : Nat),
      (1 ≤ count →
        (∀ k : Nat, k < count → ∃ image, Beat.render program width height (.int (k * speed)) {} = .ok image) →
        ∃ last, Beat.render program width height (.int ((count - 1) * speed)) {} = .ok last
          ∧ advance config ((Piece.beat (.start program width height)).handled past)
            = (.beat ⟨program, width, height, .int (count * speed), last⟩, .ok (Interest.ofPixels last.flatten)))
      ∧ (∀ (k : Nat) e, k < count →
        (∀ j < k, ∃ image, Beat.render program width height (.int (j * speed)) {} = .ok image) →
        Beat.render program width height (.int (k * speed)) {} = .error e →
        (advance config ((Piece.beat (.start program width height)).handled past)).2 = .error (.piece (.eval e)))
      ∧ ((∀ cmd ∈ program.cmds, cmd.FitsWord) →
        ∀ frame : Int, ∃ image, Beat.render program width height (.int frame) {} = .ok image))
    ∧ ∀ piece, advance config (advance config piece).1 = advance config piece := by
  refine ⟨?_, ?_, advance_advance config⟩
  · intro program text size policy outcome hpositive houtcome
    -- whatever was done with a piece, it is started anew
    have hanew : ((Piece.tape (.start program text size policy)).handled past).anew
        = .tape (.start program text size policy) := Piece.anew_handled _ past
    have hadvance := advance_tape hcount hlimit hanew
    have hrun : (TapePiece.start program text size policy).run (count.toNat * (min limit 2000000).toNat)
        = (⟨program, text, size, outcome.state, outcome.input⟩, outcome.fault.map .step) := by
      rw [← houtcome]
      rfl
    rw [hrun] at hadvance
    constructor
    · intro hfault
      rw [hadvance, hfault]
      rfl
    · intro e hfault
      refine ⟨?_, ?_⟩
      · rw [hadvance, hfault]
        rfl
      · rw [← houtcome] at hfault
        exact room_of_fault hpositive program _ _ hfault
  · intro program width height
    have hanew : ((Piece.beat (.start program width height)).handled past).anew
        = .beat (.start program width height) := Piece.anew_handled _ past
    refine ⟨?_, ?_, ?_⟩
    · intro hpos himages
      exact advance_beat hcount hspeed hanew hpos himages
    · intro k e hk himages herror
      exact advance_beat_error hcount hspeed hanew hk himages herror
    · intro hcmds frame
      exact Beat.exists_render hcmds (by decide) (.int frame) width height

/-- Three frames of three steps each, or five frames apart. -/
def threeFrames : Config where
  value
    | .framesPerGeneration => .int 3
    | .stepLimit => .int 3
    | .speed => .int 5
    | setting => setting.initial

open scoped Host in
/-- After other frames were shown, a generation cuts a loop into pieces, and another one has a formula that moves. -/
theorem advance_handled_echo : ∃ (program : Tape.Program) (moving : Beat.Program) (last : Tape.Outcome Tape.Input)
    (past : List Handling),
    threeFrames.check = .ok () ∧ threeFrames.value .framesPerGeneration = .int 3
    ∧ threeFrames.value .stepLimit = .int 3 ∧ threeFrames.value .speed = .int 5 ∧ past.length = 3
    ∧ program.text = "+[,.]" ∧ (Tape.Policy.grow 1).Positive
    ∧ Tape.run program 9 (.blank (.grow 1)) (.cycle "AB") = last ∧ last.fault = none ∧ last.state.output = #[65, 66]
    ∧ advance threeFrames ((Piece.tape (.start program "AB" (.int 8) (.grow 1))).handled past)
      = (.tape ⟨program, "AB", .int 8, last.state, last.input⟩,
        .ok (Binary64.ofNat (Interest.ofOutput [65, 66]) / 100.0))
    ∧ moving.cmds = [.var .frame, .var .screenX, .intOp .add] ∧ (∀ cmd ∈ moving.cmds, cmd.FitsWord)
    ∧ advance threeFrames ((Piece.beat (.start moving 2 1)).handled past)
      = (.beat ⟨moving, 2, 1, .int 15, [[10, 11]]⟩, .ok (Interest.ofPixels [10, 11]))
    ∧ advance threeFrames (advance threeFrames ((Piece.beat (.start moving 2 1)).handled past)).1
      = advance threeFrames ((Piece.beat (.start moving 2 1)).handled past) := by
  let program : Tape.Program := ⟨#[.inc, .enter, .read, .write, .leave], #[none, some 4, none, none, some 1], rfl⟩
  let moving : Beat.Program := ⟨[.var .frame, .var .screenX, .intOp .add], 1, rfl, by decide⟩
  let past : List Handling := [.update (.int 1) {}, .reset, .update (.int 4) {}]
  have hcount : threeFrames.value .framesPerGeneration = .int 3 := rfl
  have hlimit : threeFrames.value .stepLimit = .int 3 := rfl
  have hsteps : (3 : Int).toNat * (min (3 : Int) 2000000).toNat = 9 := by decide
  obtain ⟨htape, hbeat, hagain⟩ := advance_handled hcount hlimit rfl past
  rw [hsteps] at htape
  obtain ⟨last, hlast⟩ : ∃ last, Tape.run program 9 (.blank (.grow 1)) (Tape.Input.cycle "AB") = last := ⟨_, rfl⟩
  have hfault : last.fault = none := by
    rw [← hlast]
    decide +kernel
  have houtput : last.state.output = #[65, 66] := by
    rw [← hlast]
    decide +kernel
  have hadvance := (htape program "AB" (.int 8) (.grow 1) last (by decide) hlast).1 hfault
  rw [houtput] at hadvance
  obtain ⟨hshown, _, himages⟩ := hbeat moving 2 1
  have hcmds : ∀ cmd ∈ moving.cmds, cmd.FitsWord := by decide
  obtain ⟨image, himage, hformula⟩ := hshown (by decide) (fun k _ => himages hcmds (k * 5))
  obtain rfl : [[10, 11]] = image := Except.ok.inj himage
  have hcheck : threeFrames.check = .ok () := by decide +kernel
  exact ⟨program, moving, last, past, hcheck, hcount, hlimit, rfl, rfl, rfl, by decide, hlast, hfault, houtput,
    hadvance, rfl, hcmds, hformula, hagain _⟩

end Descent

end ProgramArt
