import Mathlib.Tactic.Choose
import ProgramArt.Host.Standard
import ProgramArt.Proofs.Beat.Images
import ProgramArt.Proofs.Beat.Tree
import ProgramArt.Proofs.Outcome

/-!
# The scratch stack is invisible

The caller of a formula owns the stack that it is evaluated on. The stack is cleared before the first command, so what
it held does not matter, and afterwards it holds what the last stack of a trace holds below the value. Only a sample
that is refused leaves it as it was. Along a row every pixel therefore starts from what the one before has left, and
yet it is the `pixel` that an empty stack would give: a row is its pixels one by one, an image its rows
(`render_eq_mapM`), and smaller images are corners of larger ones (`render_corner`).
-/

namespace ProgramArt.Beat

/-! ## Samples that are refused -/

theorem Value.ofDatum_eq_error {datum : Datum} (h : isNumeric datum = false) :
    ofDatum datum = .error (.notNumber datum.typeName) := by
  cases datum with
  | bool _ | int _ | float _ | nan _ => cases h
  | _ => rfl

/-- The values of a sample, in the order of its data. -/
def Sample.values (sample : Sample) : List Value :=
  [sample.frame, sample.mouseX, sample.mouseY, sample.screenX, sample.screenY, sample.keyX, sample.keyY]

/-- The data of a sample are converted one after the other. -/
theorem Sample.map_values_ofData (raw : RawSample) :
    Sample.values <$> ofData raw = raw.data.mapM Value.ofDatum := by
  simp [ofData, RawSample.data, values]

/-- The first datum of a sample that is no number. -/
def RawSample.refused? (raw : RawSample) : Option Datum :=
  raw.data.find? fun datum => !isNumeric datum

theorem RawSample.exists_refused {raw : RawSample} (h : ¬ raw.Numeric) : ∃ datum, raw.refused? = some datum := by
  rw [← Option.isSome_iff_exists, refused?, List.find?_isSome]
  simpa [Numeric] using h

/-- The first datum that is no number is the fault. -/
theorem mapM_ofDatum_eq_error {data : List Datum} {datum : Datum}
    (h : data.find? (fun datum => !isNumeric datum) = some datum) :
    data.mapM Value.ofDatum = .error (.notNumber datum.typeName) := by
  obtain ⟨hdatum, before, after, hsplit, hbefore⟩ := List.find?_eq_some_iff_append.mp h
  refine mapM_eq_error_iff.mpr ⟨before, datum, after, hsplit, ?_, Value.ofDatum_eq_error (by simpa using hdatum)⟩
  intro earlier hmem
  exact Value.exists_ofDatum (by simpa using hbefore earlier hmem)

theorem Sample.ofData_eq_error {raw : RawSample} {datum : Datum} (h : raw.refused? = some datum) :
    ofData raw = .error (.notNumber datum.typeName) := by
  have hvalues := (map_values_ofData raw).trans (mapM_ofDatum_eq_error h)
  cases hsample : ofData raw with
  | ok sample =>
    rw [hsample] at hvalues
    cases hvalues
  | error e =>
    rw [hsample] at hvalues
    rw [Except.error.inj hvalues]

/-! ## Traces -/

/-- The value of a formula and what is left below it are the last stack of its trace. -/
theorem exists_eval_trace [Host] {program : Program} (hcmds : ∀ cmd ∈ program.cmds, cmd.FitsWord) {raw : RawSample}
    (hraw : raw.Numeric) :
    ∃ value left entries, (∀ scratch, eval scratch program raw = (.ok value, left)) ∧
      trace program raw = .ok entries ∧ (entries.map Prod.snd).getLast? = some (value :: left) := by
  obtain ⟨sample, hsample, hfits⟩ := Sample.exists_ofData hraw
  obtain ⟨value, left, hlast⟩ := Program.exists_executeAll hfits hcmds
  obtain ⟨entries, hentries, hend⟩ := getLast?_traceFrom program.cmds_ne_nil hlast
  exact ⟨value, left, entries, eval_of_executeAll hsample hlast, (trace_of_traceFrom hsample).trans hentries, hend⟩

/-! ## Pixels by themselves -/

section

variable {program : Program}

/-- The value of a formula does not depend on the scratch stack. -/
theorem eval_fst [Host] (program : Program) (scratch : Stack) (raw : RawSample) :
    (eval scratch program raw).1 = (eval [] program raw).1 := by
  unfold eval
  cases Sample.ofData raw with
  | error _ => rfl
  | ok sample => rfl

/-- One pixel, by itself. -/
def pixel [Host] (program : Program) (frame : Datum) (controls : Controls) (x y : Nat) : Except EvalError UInt8 :=
  (eval [] program (controls.sample frame x y)).1.map Value.toByte

theorem renderRow_eq_mapM [Host] {frame : Datum} {controls : Controls} (y count x : Nat) (scratch : Stack) :
    renderRow program frame controls y count x scratch
      = (List.range' x count).mapM fun x => pixel program frame controls x y := by
  induction count generalizing x scratch with
  | zero => rfl
  | succ count ih =>
    have hvalue := eval_fst program scratch (controls.sample frame x y)
    rw [renderRow, List.range'_succ, List.mapM_cons, pixel, ← hvalue]
    cases heval : eval scratch program (controls.sample frame x y) with
    | mk result left =>
      cases result with
      | error e => rfl
      | ok value =>
        -- the next pixel finds on the stack what this one has left
        dsimp only
        rw [ih (x + 1) left]
        rfl

/-- **An image is made of its pixels**, each of them by itself. -/
theorem render_eq_mapM [Host] (width height : Nat) (frame : Datum) (controls : Controls) :
    render program width height frame controls
      = (List.range height).mapM fun y => (List.range width).mapM fun x => pixel program frame controls x y := by
  rw [render]
  congr 1
  funext y
  rw [renderRow_eq_mapM, List.range_eq_range']

end

/-! ## Corners -/

section

variable {α β γ ε : Type} {f : α → Except ε β} {items : List α} {results : List β}

/-- The first of many steps succeed if all of them do. -/
theorem mapM_take (h : items.mapM f = .ok results) (count : Nat) :
    (items.take count).mapM f = .ok (results.take count) :=
  mapM_eq_ok_iff.mpr (List.forall₂_take count (mapM_eq_ok_iff.mp h))

/-- What is made of every result is made of all results. -/
theorem mapM_map {g : α → Except ε γ} {change : β → γ} (h : items.mapM f = .ok results)
    (hg : ∀ item result, f item = .ok result → g item = .ok (change result)) :
    items.mapM g = .ok (results.map change) := by
  refine mapM_eq_ok_iff.mpr (List.forall₂_map_right_iff.mpr ?_)
  exact (mapM_eq_ok_iff.mp h).imp hg

end

theorem mapM_range_take {α ε : Type} {f : Nat → Except ε α} {results : List α} {count more : Nat}
    (h : (List.range more).mapM f = .ok results) (hle : count ≤ more) :
    (List.range count).mapM f = .ok (results.take count) := by
  have htake := mapM_take h count
  rwa [List.take_range, Nat.min_eq_left hle] at htake

/-- **An image is a corner of every larger one.** -/
theorem render_corner [Host] {program : Program} {frame : Datum} {controls : Controls} {image : Raster}
    {width height wide high : Nat} (hwidth : width ≤ wide) (hheight : height ≤ high)
    (h : render program wide high frame controls = .ok image) :
    render program width height frame controls = .ok ((image.take height).map fun row => row.take width) := by
  rw [render_eq_mapM] at h ⊢
  exact mapM_map (mapM_range_take h hheight) fun y row hrow => mapM_range_take hrow hwidth

/-! ## Sizes from data -/

/-- The mouse and the keyboard as a list. -/
def Controls.toList (controls : Controls) : List Datum :=
  [controls.mouseX, controls.mouseY, controls.keyX, controls.keyY]

theorem imageSide_natCast (side : Nat) :
    imageSide ((side : Int), true) = if Word64.maxValue < side then .error .badShape else .ok (side : Int) := by
  have hmin : ¬ (side : Int) < Word64.minValue := by
    have hnonneg : (0 : Int) ≤ side := Int.natCast_nonneg side
    have hneg : Word64.minValue < 0 := by decide
    omega
  simp [imageSide, hmin]

theorem shape_natCast (width height : Nat) : shape width height = .ok (width, height) := by
  rw [shape, if_neg (by omega), if_neg (by omega)]
  rfl

/-- The pixels of an image are given the shape of their rows and columns. -/
theorem shaped_eq (width height : Nat) (raster : Raster) :
    (do
      let height ← imageSide ((height : Int), true)
      let width ← imageSide ((width : Int), true)
      let (width, height) ← shape width height
      return (width, height, raster))
        = if Word64.maxValue < width ∨ Word64.maxValue < height then .error .badShape
          else .ok (width, height, raster) := by
  rw [imageSide_natCast, imageSide_natCast]
  by_cases hheight : Word64.maxValue < height
  · have hlarge : Word64.maxValue < width ∨ Word64.maxValue < height := .inr hheight
    rw [if_pos hheight, if_pos hlarge]
    rfl
  · by_cases hwidth : Word64.maxValue < width
    · have hlarge : Word64.maxValue < width ∨ Word64.maxValue < height := .inl hwidth
      rw [if_neg hheight, if_pos hwidth, if_pos hlarge]
      rfl
    · rw [if_neg hheight, if_neg hwidth, if_neg (not_or.mpr ⟨hwidth, hheight⟩)]
      dsimp only [bind, Except.bind]
      rw [shape_natCast]
      rfl

/-- An image in a size that integers give, none of them negative. -/
theorem renderData_int [Host] {program : Program} {frame : Datum} {controls : Controls} {image : Raster}
    {width height : Nat} (h : render program width height frame controls = .ok image) :
    renderData program (.int width) (.int height) frame controls.toList
      = if Word64.maxValue < width ∨ Word64.maxValue < height then .error .badShape
        else .ok (width, height, image) := by
  rw [← shaped_eq width height image, renderData]
  by_cases hrows : (height : Int) ≤ 0
  · -- without rows no pixel is asked for
    obtain rfl : height = 0 := by omega
    cases h
    rfl
  · change (if (height : Int) ≤ 0 then _ else
      (render program (width : Int).toNat (height : Int).toNat frame controls).mapError RenderError.eval >>= _) = _
    rw [if_neg hrows, Int.toNat_natCast, Int.toNat_natCast, h]
    rfl

/-! ## The scratch stack -/

/-- **The scratch stack is invisible.** On numbers a formula whose literals are in the range of words gives, whatever
the scratch stack held, a value and what is left below it, which together are the last stack of its trace. A sample
with anything else is refused for the first such datum, and the scratch stack stays as it was. So every pixel of an
image, in whatever size, is the low byte of the value at its place on an empty stack, and an image is the top left
corner of every larger one. -/
theorem scratch_invisible [Host] (program : Program) (hcmds : ∀ cmd ∈ program.cmds, cmd.FitsWord) :
    (∀ raw : RawSample, raw.Numeric → ∃ value left entries,
      (∀ scratch, eval scratch program raw = (.ok value, left)) ∧
      trace program raw = .ok entries ∧ (entries.map Prod.snd).getLast? = some (value :: left)) ∧
    (∀ raw : RawSample, ¬ raw.Numeric → ∃ datum, raw.refused? = some datum ∧
      trace program raw = .error (.notNumber datum.typeName) ∧
      ∀ scratch, eval scratch program raw = (.error (.notNumber datum.typeName), scratch)) ∧
    (∀ (frame : Datum) (controls : Controls), isNumeric frame = true → controls.Numeric →
      ∃ byte : Nat → Nat → UInt8,
        (∀ x y, ∃ value left, eval [] program (controls.sample frame x y) = (.ok value, left) ∧
          byte x y = value.toByte) ∧
        ∀ width height, ∃ image, render program width height frame controls = .ok image ∧
          image = ((List.range height).map fun y => (List.range width).map fun x => byte x y) ∧
          renderData program (.int width) (.int height) frame controls.toList
            = if Word64.maxValue < width ∨ Word64.maxValue < height then .error .badShape
              else .ok (width, height, image)) ∧
    ∀ (frame : Datum) (controls : Controls) (width height wide high : Nat) (image : Raster),
      width ≤ wide → height ≤ high → render program wide high frame controls = .ok image →
      render program width height frame controls = .ok ((image.take height).map fun row => row.take width) := by
  refine ⟨fun raw hraw => exists_eval_trace hcmds hraw, ?_, ?_, ?_⟩
  · intro raw hraw
    obtain ⟨datum, hdatum⟩ := RawSample.exists_refused hraw
    have hrefused := Sample.ofData_eq_error hdatum
    refine ⟨datum, hdatum, ?_, ?_⟩
    · rw [trace, hrefused]
      rfl
    · intro scratch
      rw [eval, hrefused]
  · intro frame controls hframe hcontrols
    -- the values of all pixels as a function of their places
    choose value left heval using fun x y => exists_eval hcmds (hcontrols.sample_data hframe x y)
    refine ⟨fun x y => (value x y).toByte, fun x y => ⟨value x y, left x y, heval x y [], rfl⟩, ?_⟩
    intro width height
    have himage := render_eq (fun x y => ⟨value x y, left x y, heval x y, rfl⟩) width height
    exact ⟨_, himage, rfl, renderData_int himage⟩
  · intro frame controls width height wide high image hwidth hheight himage
    exact render_corner hwidth hheight himage

/-- A formula that leaves a value behind at every pixel: `7 sx`. -/
def leaving : List Cmd :=
  [.int 7, .var .screenX]

open scoped Host in
theorem scratch_invisible_leaving :
    ∃ program, Program.compile leaving = .ok program ∧ (∀ cmd ∈ leaving, cmd.FitsWord) ∧
      eval [.int 1, .int 2] program { frame := .str "t" } = (.error (.notNumber "str"), [.int 1, .int 2]) ∧
      render program 3 2 (.int 0) {} = .ok [[0, 1, 2], [0, 1, 2]] ∧
      render program 2 1 (.int 0) {} = .ok [[0, 1]] := by
  have hcompile : Program.compile leaving = .ok ⟨leaving, 2, rfl, by decide⟩ := rfl
  have hcmds : ∀ cmd ∈ leaving, cmd.FitsWord := by decide
  obtain ⟨-, hrefused, -, hcorner⟩ := scratch_invisible ⟨leaving, 2, rfl, by decide⟩ hcmds
  have hlarge : render ⟨leaving, 2, rfl, by decide⟩ 3 2 (.int 0) {} = .ok [[0, 1, 2], [0, 1, 2]] := by decide
  obtain ⟨datum, hdatum, -, heval⟩ := hrefused { frame := .str "t" } (by decide)
  cases hdatum
  exact ⟨_, hcompile, hcmds, heval _, hlarge, hcorner _ _ 2 1 3 2 _ (by decide) (by decide) hlarge⟩

end ProgramArt.Beat
