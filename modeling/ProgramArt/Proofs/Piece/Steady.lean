import ProgramArt.Piece.Picture
import ProgramArt.Proofs.Evolution.Random
import ProgramArt.Proofs.Tape.Invariant

/-!
# Pieces at work

A piece that is shown frame by frame keeps its program (`makings_update`), and a tape on the default ring never comes
to a step that fails (`runFrom_onRing`). What can go wrong with it then comes from the settings and not from the
program: a frame of a `Piece.Steady` piece is no crash.
-/

namespace ProgramArt

/-- The failures of a program, and not of the settings or the source: it is no program, it cannot be mutated, or
a step of it fails. -/
def PieceError.isCrash : PieceError → Bool
  | .program _ | .text (.compile _) | .step _ => true
  | .evolution (.fixed _) | .evolution (.unbalanced _) | .evolution (.badTape _) | .evolution (.badBeat _ _) => true
  | _ => false

/-! ## Machines on a ring -/

namespace Tape

variable {σ : Type} [Source σ] {program : Program}

/-- A machine at a place of its program or at the end, with the pointer in a ring of cells. -/
def OnRing (program : Program) (machine : State × σ) : Prop :=
  ∃ modulus pc store, 1 ≤ modulus ∧ pc ≤ program.size ∧ Store.InTape (.ring modulus) store
    ∧ machine = store.place (.ring modulus) pc

omit [Source σ] in
/-- A blank tape of a ring is a machine on it. -/
theorem onRing_ring (program : Program) {modulus : Int} (hpos : 1 ≤ modulus) (input : σ) :
    OnRing program (State.blank (.ring modulus), input) := by
  have hsound : (State.blank (.ring modulus)).Sound := sound_blank hpos
  refine ⟨modulus, 0, .ofState (.blank (.ring modulus)) input, hpos, Nat.zero_le _, ?_, ?_⟩
  · exact Store.inTape_ofState hsound input
  · exact (Store.place_ofState rfl hsound.nonneg input).symm

/-- **A machine on a ring runs on until it halts.** Induction on the steps that are left: each leads to a place of
the program again, since a ring has room for every move. -/
theorem runFrom_onRing [Host] {state : State} {input : σ} (h : OnRing program (state, input)) (taken budget : Nat) :
    OnRing program ((runFrom program taken budget state input).state, (runFrom program taken budget state input).input)
      ∧ (runFrom program taken budget state input).fault = none := by
  induction budget generalizing taken state input with
  | zero => exact ⟨h, rfl⟩
  | succ budget ih =>
    unfold runFrom
    split
    · exact ⟨h, rfl⟩
    · rename_i hrunning
      obtain ⟨modulus, pc, store, hpos, hpc, hin, hmachine⟩ := h
      have hlt : pc < program.size := by
        rcases Nat.lt_or_eq_of_le hpc with hlt | rfl
        · exact hlt
        · have hhalted := Store.halted_place_size (.ring modulus) store program
          rw [← hmachine] at hhalted
          exact absurd hhalted hrunning
      rcases step_inTape (show (Policy.ring modulus).Positive from hpos) hin hlt with
        ⟨next, pc', hpc', hin', _, hstep⟩ | ⟨_, _, _, hgrow, _⟩
      · rw [← hmachine] at hstep
        rw [hstep]
        exact ih ⟨modulus, pc', next, hpos, hpc', hin', rfl⟩ (taken + 1)
      · cases hgrow

end Tape

/-! ## Frames -/

namespace Piece

/-- What a piece is made of, whatever frame it is at. -/
def makings : Piece → (Tape.Program × String × Datum) ⊕ (Beat.Program × Nat × Nat)
  | .tape piece => .inl (piece.program, piece.inputText, piece.pixelSize)
  | .beat piece => .inr (piece.program, piece.width, piece.height)

@[simp]
theorem makings_reset (piece : Piece) : piece.reset.makings = piece.makings := by
  cases piece <;> rfl

/-- **A frame does not change what a piece is made of.** -/
@[simp]
theorem makings_update [Host] (piece : Piece) (speed : Datum) (controls : Beat.Controls) :
    (piece.update speed controls).1.makings = piece.makings := by
  cases piece with
  | tape piece =>
    unfold update TapePiece.update
    dsimp only
    split <;> rfl
  | beat piece =>
    unfold update BeatPiece.update
    dsimp only
    split
    · rfl
    · split
      · rfl
      · split <;> rfl

/-- The text of a piece is told by its `makings`. -/
theorem code_eq_of_makings [Host] {a b : Piece} (h : a.makings = b.makings) : a.code = b.code := by
  cases a with
  | tape a =>
    cases b with
    | tape b =>
      have hprogram : a.program = b.program := congrArg Prod.fst (Sum.inl.inj h)
      dsimp only [code]
      rw [hprogram]
    | beat b => cases h
  | beat a =>
    cases b with
    | tape b => cases h
    | beat b =>
      have hprogram : a.program = b.program := congrArg Prod.fst (Sum.inr.inj h)
      dsimp only [code]
      rw [hprogram]

/-- A mutation starts from what the piece is made of. -/
theorem mutate_eq_of_makings {σ : Type} [Draw.Source σ] {a b : Piece} (h : a.makings = b.makings) (chance : Float) :
    (a.mutate chance : Drawing σ Piece) = b.mutate chance := by
  cases a with
  | tape a =>
    cases b with
    | tape b =>
      obtain ⟨hprogram, htext, hsize⟩ : a.program = b.program ∧ a.inputText = b.inputText
          ∧ a.pixelSize = b.pixelSize := by
        simpa [makings] using h
      dsimp only [mutate]
      rw [hprogram, htext, hsize]
    | beat b => cases h
  | beat a =>
    cases b with
    | tape b => cases h
    | beat b =>
      obtain ⟨hprogram, hwidth, hheight⟩ : a.program = b.program ∧ a.width = b.width ∧ a.height = b.height := by
        simpa [makings] using h
      dsimp only [mutate]
      rw [hprogram, hwidth, hheight]

/-! ## Frames -/

/-- A piece that comes to no failing step: a machine on a ring, or any formula. -/
def Steady : Piece → Prop
  | .tape piece => Tape.OnRing piece.program (piece.state, piece.input)
  | .beat _ => True

/-- A frame of a steady piece leaves it steady, and is no crash. -/
theorem Steady.update [Host] {piece : Piece} (h : piece.Steady) (speed : Datum) (controls : Beat.Controls) :
    (piece.update speed controls).1.Steady ∧ ∀ e, (piece.update speed controls).2 = some e → e.isCrash = false := by
  cases piece with
  | tape piece =>
    unfold Piece.update TapePiece.update
    dsimp only
    split
    · rename_i steps _
      obtain ⟨hring, hfault⟩ := Tape.runFrom_onRing h 0 steps
      refine ⟨hring, ?_⟩
      intro e he
      change Option.map PieceError.step (Tape.runFrom piece.program 0 steps piece.state piece.input).fault
        = some e at he
      rw [hfault] at he
      cases he
    · refine ⟨h, ?_⟩
      intro e he
      cases he
      rfl
  | beat piece =>
    refine ⟨trivial, ?_⟩
    intro e he
    unfold Piece.update BeatPiece.update at he
    dsimp only at he
    split at he
    · cases he
      rfl
    · split at he
      · cases he
        rfl
      · split at he
        · cases he
        · cases he
          rfl

end Piece

/-! ## Pictures -/

theorem allot_harmless [Host] (bytes : Nat) (sides : List Nat) :
    FailsOnly (fun e => e.isCrash = false) (allot bytes sides) := by
  unfold allot
  split
  · exact failsOnly_error rfl
  · split
    · exact failsOnly_error rfl
    · exact failsOnly_ok ()

theorem wholeSide_harmless (side : Datum) : FailsOnly (fun e => e.isCrash = false) (wholeSide side) := by
  unfold wholeSide
  split
  · split
    · exact failsOnly_error rfl
    · exact failsOnly_ok _
  · exact failsOnly_error rfl

/-- A size that cannot be had is a fault of the settings. -/
theorem imageSize_harmless [Host] (width height : Datum) (bytes : Nat) :
    FailsOnly (fun e => e.isCrash = false) (imageSize width height bytes) := by
  refine (wholeSide_harmless height).bind fun height => (wholeSide_harmless width).bind fun width => ?_
  split
  · exact failsOnly_error rfl
  · exact (allot_harmless _ _).bind fun _ => failsOnly_ok _

theorem isCrash_tableFault (sizes : Datum) (width height : Nat) : (tableFault sizes width height).isCrash = false := by
  unfold tableFault
  dsimp only
  split
  · rfl
  · rfl
  · split
    · rfl
    · split
      · cases hfound : (tableEntries sizes).findSome? divisorFault? with
        | none => rfl
        | some e =>
          obtain ⟨entry, _, hentry⟩ := List.exists_of_findSome?_eq_some hfound
          unfold divisorFault? at hentry
          split at hentry <;> try split at hentry
          all_goals cases hentry
          all_goals rfl
      · rfl

/-- And so is a size of squares, whatever datum it is. -/
theorem squareSide_harmless (width height : Nat) (side : Datum) :
    FailsOnly (fun e => e.isCrash = false) (squareSide width height side) := by
  unfold squareSide
  split
  · split
    · exact failsOnly_error rfl
    · split
      · exact failsOnly_error rfl
      · exact failsOnly_ok _
  · exact failsOnly_ok _
  · exact failsOnly_error rfl
  · refine failsOnly_error ?_
    split <;> rfl
  · exact failsOnly_error rfl
  · exact failsOnly_error (isCrash_tableFault _ _ _)
  · exact failsOnly_error rfl

/-- Drawing over a picture fails only as one of its pixels does. -/
theorem failsOnly_redraw {ε : Type} {failed : ε → Prop} {draw : (x y : Nat) → Color → Except ε Color}
    (h : ∀ x y old, FailsOnly failed (draw x y old)) (before : Picture) : FailsOnly failed (before.redraw draw) :=
  failsOnly_mapM (fun _ => failsOnly_mapM (fun _ => h _ _ _) _) _

theorem TapePiece.outlined_harmless (piece : TapePiece) :
    FailsOnly (fun e => e.isCrash = false) piece.outlined := by
  unfold TapePiece.outlined
  split
  · exact failsOnly_ok _
  · split
    · exact failsOnly_ok _
    · exact failsOnly_error rfl

theorem greenPixel_harmless (image : Array (Array UInt8)) (row column : Int) (old : Color) :
    FailsOnly (fun e => e.isCrash = false) (greenPixel image row column old) := by
  unfold greenPixel
  split
  · exact failsOnly_ok _
  · exact failsOnly_error rfl

/-- Drawing a piece is no crash, whatever picture it is drawn over. -/
theorem Piece.paint_harmless (piece : Piece) (width height : Nat) (before : Picture) :
    FailsOnly (fun e => e.isCrash = false) (piece.paint width height before) := by
  cases piece with
  | tape piece =>
    refine piece.outlined_harmless.bind fun instr => ?_
    refine (squareSide_harmless width height piece.pixelSize).bind fun side => ?_
    refine failsOnly_redraw (fun x y old => ?_) before
    unfold tapePixel
    dsimp only
    split
    · exact failsOnly_error rfl
    · exact failsOnly_ok _
  | beat piece =>
    show FailsOnly _ (piece.paint width height before)
    unfold BeatPiece.paint paintGreen
    refine failsOnly_redraw ?_ before
    intro x y old
    exact greenPixel_harmless _ _ _ old

/-- Drawing a piece is no crash. -/
theorem Piece.draw_harmless [Host] (piece : Piece) (width height : Nat) :
    FailsOnly (fun e => e.isCrash = false) (piece.draw width height) := by
  have hrest (before : Picture) : FailsOnly (fun e => e.isCrash = false) (do
      allot 8 [height]
      allot 8 [width]
      piece.paint width height before) :=
    (allot_harmless _ _).bind fun _ => (allot_harmless _ _).bind fun _ => piece.paint_harmless width height before
  unfold Piece.draw Piece.drawOver
  split
  · exact (allot_harmless _ _).bind fun _ => hrest _
  · exact hrest _

/-! ## New pieces -/

namespace Piece

/-- A new piece of a tape program starts with what the settings give, whatever the program is. -/
theorem ofTape_eq_ok [Host] {program : Tape.Program} {options : PieceOptions} {piece : Piece}
    (h : ofTape program options = .ok piece) :
    ∃ text size, piece = .tape (.start program text size (options.policy.getD .default))
      ∧ ∀ other, ofTape other options = .ok (.tape (.start other text size (options.policy.getD .default))) := by
  unfold ofTape tapePolicy at h ⊢
  cases hfresh : Tape.State.fresh (options.policy.getD .default) with
  | error e =>
    simp only [hfresh] at h
    cases h
  | ok state =>
    simp only [hfresh] at h ⊢
    -- whether the settings fit does not depend on the program
    cases hextra : (options.width.isSome || options.height.isSome) with
    | true =>
      rw [hextra] at h
      cases h
    | false =>
      rw [hextra] at h
      cases htext : readable (options.inputText.getD (.str defaultInputText)) with
      | error e =>
        rw [htext] at h
        cases h
      | ok text =>
        rw [htext] at h
        cases h
        exact ⟨text, options.pixelSize.getD (.int defaultPixelSize), rfl, fun other => rfl⟩

/-- A new piece of a formula starts with the size that the settings give, whatever the formula is. -/
theorem ofBeat_eq_ok [Host] {program : Beat.Program} {options : PieceOptions} {piece : Piece}
    (h : ofBeat program options = .ok piece) :
    ∃ width height, piece = .beat (.start program width height)
      ∧ ∀ other, ofBeat other options = .ok (.beat (.start other width height)) := by
  unfold ofBeat at h ⊢
  cases hextra : (options.inputText.isSome || options.pixelSize.isSome || options.policy.isSome) with
  | true =>
    rw [hextra] at h
    cases h
  | false =>
    rw [hextra] at h
    cases hsize : imageSize (options.width.getD (.int defaultSide)) (options.height.getD (.int defaultSide)) 1 with
    | error e =>
      dsimp only at h
      rw [hsize] at h
      cases h
    | ok size =>
      dsimp only at h ⊢
      rw [hsize] at h
      cases h
      refine ⟨size.1, size.2, rfl, ?_⟩
      intro other
      rw [hsize]
      rfl

/-- Making a tape piece is no crash. -/
theorem ofTape_harmless [Host] (program : Tape.Program) (options : PieceOptions) :
    FailsOnly (fun e => e.isCrash = false) (ofTape program options) := by
  have hpolicy : FailsOnly (fun e => e.isCrash = false) (tapePolicy options) := by
    unfold tapePolicy
    dsimp only
    split
    · exact failsOnly_error rfl
    · exact failsOnly_ok _
  have hreadable : ∀ datum, FailsOnly (fun e => e.isCrash = false) (readable datum) := by
    intro datum
    unfold readable
    split
    · exact failsOnly_ok _
    · exact failsOnly_error rfl
    · exact failsOnly_error rfl
  refine hpolicy.bind fun policy => ?_
  split
  · exact failsOnly_error rfl
  · exact (hreadable _).bind fun text => failsOnly_ok _

theorem ofBeat_harmless [Host] (program : Beat.Program) (options : PieceOptions) :
    FailsOnly (fun e => e.isCrash = false) (ofBeat program options) := by
  unfold ofBeat
  split
  · exact failsOnly_error rfl
  · exact (imageSize_harmless _ _ _).bind fun size => failsOnly_ok _

/-! ## Draws -/

variable {σ : Type} [Draw.Source σ]

omit [Draw.Source σ] in
/-- Evolution within a piece ends as it does by itself. -/
theorem ends_evolving {α : Type} {m : Evolution.Evolving σ α} {source : σ} {done : α → σ → Prop}
    {failed : Evolution.EvolutionError → σ → Prop} (h : Ends m source done failed) :
    Ends (evolving m) source done fun e rest => ∃ cause, e = .evolution cause ∧ failed cause rest := by
  constructor
  unfold evolving
  rcases hm : m source with ⟨cause | a, rest⟩
  · exact ⟨cause, rfl, h.of_error hm⟩
  · exact h.of_ok hm

variable [Draw.LawfulSource σ]

/-- A mutation of a tape piece starts a new one on the default ring, with the same brackets in its program. -/
theorem ends_mutate_tape (piece : TapePiece) (chance : Float) (source : σ) :
    Ends ((tape piece).mutate chance) source
      (fun child _ => ∃ program : Tape.Program,
        List.Forall₂ Evolution.KeepsBracket piece.program.instrs.toList program.instrs.toList
          ∧ child = .tape (.start program piece.inputText piece.pixelSize .default))
      (fun e _ => ∃ dry, e = .evolution (.exhausted dry)) := by
  refine Ends.bind ((ends_evolving (Evolution.ends_mutateTape piece.program chance source)).mono_failed ?_) ?_
  · rintro e _ ⟨_, rfl, dry, rfl⟩
    exact ⟨dry, rfl⟩
  · intro program rest hprogram
    exact ends_pure ⟨program, hprogram, rfl⟩

/-- A mutation of a formula piece starts a new one of a formula with other commands in the same places. -/
theorem ends_mutate_beat (piece : BeatPiece) (chance : Float) (source : σ) :
    Ends ((beat piece).mutate chance) source
      (fun child _ => ∃ program, List.Forall₂ Evolution.Replaces piece.program.cmds program.cmds
        ∧ child = .beat (.start program piece.width piece.height))
      (fun e _ => ∃ cause, e = .evolution cause ∧ Evolution.Unmutated piece.program.cmds cause) := by
  refine (ends_evolving (Evolution.ends_mutateBeat piece.program chance source)).bind ?_
  intro program rest hprogram
  exact ends_pure ⟨program, hprogram.imp fun _ _ => Evolution.Kin.replaces, rfl⟩

/-- A random piece has a program of its kind; a formula is made of variables and operators. -/
theorem ends_random [Host] (kind : Kind) (length : Datum) (io : Bool) (options : PieceOptions) (source : σ) :
    Ends (random kind length io options) source
      (fun piece _ => match kind with
        | .tape => ∃ program, ofTape program options = .ok piece
        | .beat => ∃ program, (∀ cmd ∈ program.cmds, cmd ∈ Evolution.beatChoices) ∧ ofBeat program options = .ok piece)
      (fun e _ => e.isCrash = false) := by
  have hdrawn : ∀ {e : PieceError}, (∃ cause, e = .evolution cause ∧ Evolution.Uncompleted cause) →
      e.isCrash = false := by
    rintro e ⟨cause, rfl, ⟨dry, rfl⟩ | rfl⟩ <;> rfl
  unfold random
  cases length.countBelow? with
  | none => exact ends_throw rfl
  | some length =>
    cases kind with
    | tape =>
      refine Ends.bind ((ends_evolving (Evolution.ends_randomTape length io source)).mono_failed
        fun _ _ => hdrawn) ?_
      intro program rest _
      cases hpiece : ofTape program options with
      | error e => exact ⟨ofTape_harmless program options e hpiece⟩
      | ok piece => exact ⟨⟨program, hpiece⟩⟩
    | beat =>
      refine Ends.bind ((ends_evolving (Evolution.ends_randomBeat length source)).mono_failed
        fun _ _ => hdrawn) ?_
      intro program rest hprogram
      cases hpiece : ofBeat program options with
      | error e => exact ⟨ofBeat_harmless program options e hpiece⟩
      | ok piece =>
        exact ⟨⟨program, fun cmd hcmd => Evolution.mem_beatChoices.mpr (hprogram.drawn cmd hcmd), hpiece⟩⟩

end Piece

end ProgramArt
