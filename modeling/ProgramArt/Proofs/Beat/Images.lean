import Mathlib.Tactic.Choose
import ProgramArt.Beat.Raster
import ProgramArt.Proofs.Beat.Safety

/-!
# Every pixel has its value

The pixels of a row are computed one after the other on one scratch stack, but none of them depends on what the one
before has left there. So an image is a function of the place (`render_eq`), and formulas have an image at every frame
(`exists_render`).
-/

namespace ProgramArt.Beat

/-! ## Controls -/

/-- The mouse and the keyboard stand at numbers. -/
def Controls.Numeric (controls : Controls) : Prop :=
  ∀ datum ∈ [controls.mouseX, controls.mouseY, controls.keyX, controls.keyY], isNumeric datum = true

instance (controls : Controls) : Decidable controls.Numeric :=
  inferInstanceAs (Decidable (∀ datum ∈ [controls.mouseX, controls.mouseY, controls.keyX, controls.keyY],
    isNumeric datum = true))

theorem isNumeric_toDatum (value : Value) : isNumeric value.toDatum = true := by
  cases value <;> rfl

theorem Controls.Numeric.sample_data {controls : Controls} (h : controls.Numeric) {frame : Datum}
    (hframe : isNumeric frame = true) (x y : Nat) : (controls.sample frame x y).Numeric := by
  have hplace (n : Nat) : isNumeric (.int n) = true := rfl
  simp only [Controls.Numeric, List.forall_mem_cons] at h
  obtain ⟨hmouseX, hmouseY, hkeyX, hkeyY, -⟩ := h
  simp [RawSample.Numeric, RawSample.data, Controls.sample, hframe, hmouseX, hmouseY, hplace, hkeyX, hkeyY]

theorem Controls.Numeric.sample {controls : Controls} (h : controls.Numeric) (frame : Value) (x y : Nat) :
    (controls.sample frame.toDatum x y).Numeric :=
  h.sample_data (isNumeric_toDatum frame) x y

/-! ## Pixels -/

variable {program : Program}

theorem exists_eval [Host] (hcmds : ∀ cmd ∈ program.cmds, cmd.FitsWord) {raw : RawSample} (hraw : raw.Numeric) :
    ∃ value left, ∀ scratch, eval scratch program raw = (.ok value, left) := by
  obtain ⟨sample, hsample, hfits⟩ := Sample.exists_ofData hraw
  obtain ⟨value, left, hlast⟩ := Program.exists_executeAll hfits hcmds
  exact ⟨value, left, eval_of_executeAll hsample hlast⟩

theorem renderRow_eq [Host] {frame : Datum} {controls : Controls} {y : Nat} {byte : Nat → UInt8}
    (hpixel : ∀ x, ∃ value left, (∀ scratch, eval scratch program (controls.sample frame x y) = (.ok value, left))
      ∧ value.toByte = byte x)
    (count x : Nat) (scratch : Stack) :
    renderRow program frame controls y count x scratch = .ok ((List.range' x count).map byte) := by
  induction count generalizing x scratch with
  | zero => rfl
  | succ count ih =>
    obtain ⟨value, left, heval, hbyte⟩ := hpixel x
    rw [renderRow, heval scratch]
    dsimp only
    rw [ih (x + 1) left, List.range'_succ, List.map_cons, hbyte]
    rfl

/-- **An image whose pixels are known one by one.** -/
theorem render_eq [Host] {frame : Datum} {controls : Controls} {byte : Nat → Nat → UInt8}
    (hpixel : ∀ x y, ∃ value left, (∀ scratch, eval scratch program (controls.sample frame x y) = (.ok value, left))
      ∧ value.toByte = byte x y)
    (width height : Nat) :
    render program width height frame controls
      = .ok ((List.range height).map fun y => (List.range width).map fun x => byte x y) := by
  have hrow : (fun y => renderRow program frame controls y width 0 [])
      = fun y => pure ((List.range width).map fun x => byte x y) := by
    funext y
    rw [renderRow_eq (fun x => hpixel x y), List.range_eq_range']
    rfl
  rw [render, hrow, List.mapM_pure]
  rfl

/-- **Formulas have an image at every frame**, if their literals are in the range of words. -/
theorem exists_render [Host] (hcmds : ∀ cmd ∈ program.cmds, cmd.FitsWord) {controls : Controls}
    (hcontrols : controls.Numeric) (frame : Value) (width height : Nat) :
    ∃ image, render program width height frame.toDatum controls = .ok image := by
  choose value left heval using fun x y => exists_eval hcmds (hcontrols.sample frame x y)
  exact ⟨_, render_eq (fun x y => ⟨value x y, left x y, heval x y, rfl⟩) width height⟩

end ProgramArt.Beat
