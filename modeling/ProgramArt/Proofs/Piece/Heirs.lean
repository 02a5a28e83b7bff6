import ProgramArt.Host.Standard
import ProgramArt.Proofs.Evolution.Idle
import ProgramArt.Proofs.Piece.Frames
import ProgramArt.Proofs.Piece.Range
import ProgramArt.Proofs.Piece.Squares

/-!
# Heirs of a tape piece

A mutation hands on the program, the text and the size of the squares, but not the tape: every heir starts on the
default ring. A mutation without a chance hands on the program as it is. Its heir is the piece itself, reset, if that
was on the default ring too. If it was not, the two still show the same as long as neither comes to an end of its
tape: then they are `TapePiece.Matches`, pieces that differ in nothing but the lengths of their tapes.
-/

namespace ProgramArt

/-! ## Pieces that match -/

namespace TapePiece

/-- Two tape pieces differ in nothing but the lengths of their tapes: a cell that only one of them has is zero. -/
structure Matches (a b : TapePiece) : Prop where
  program : a.program = b.program
  inputText : a.inputText = b.inputText
  pixelSize : a.pixelSize = b.pixelSize
  pc : a.state.pc = b.state.pc
  ptr : a.state.ptr = b.state.ptr
  output : a.state.output = b.state.output
  input : a.input = b.input
  cells : ∀ i, a.state.cells.getD i 0 = b.state.cells.getD i 0

theorem Matches.score {a b : TapePiece} (h : a.Matches b) : a.score = b.score := by
  rw [TapePiece.score, TapePiece.score, h.output]

theorem Matches.tapePixel {a b : TapePiece} (h : a.Matches b) {side : Int} (hside : 0 < side) (instr : Tape.Instr)
    (width : Nat) : tapePixel a.state instr side width = tapePixel b.state instr side width := by
  obtain ⟨side, rfl⟩ := Int.eq_ofNat_of_zero_le (Int.le_of_lt hside)
  funext x y old
  rw [tapePixel_eq, tapePixel_eq, squareColor, squareColor, h.cells, h.ptr]

theorem Matches.outlined {a b : TapePiece} (h : a.Matches b) : a.outlined = b.outlined := by
  rw [TapePiece.outlined, TapePiece.outlined, Tape.State.halted, Tape.State.halted, h.pc, h.program]

theorem squareSide_pos {width height : Nat} {size : Datum} {side : Int}
    (h : squareSide width height size = .ok side) (hsize : ∀ n, size = .int n → 0 ≤ n) : 0 < side := by
  unfold squareSide at h
  split at h
  · rename_i n
    have hle := hsize n rfl
    split at h
    · cases h
    · split at h
      · cases h
      · cases h
        omega
  · cases h
    decide
  all_goals cases h

/-- **Pieces that match are drawn alike**, unless the size of their squares is negative. -/
theorem Matches.draw [Host] {a b : TapePiece} (h : a.Matches b) (hsize : ∀ n, b.pixelSize = .int n → 0 ≤ n)
    (width height : Nat) : (Piece.tape a).draw width height = (Piece.tape b).draw width height := by
  have hpaint (before : Picture) :
      (Piece.tape a).paint width height before = (Piece.tape b).paint width height before := by
    show a.paint width height before = b.paint width height before
    unfold TapePiece.paint paintSquares
    rw [h.outlined, h.pixelSize]
    congr 1
    funext instr
    cases hside : squareSide width height b.pixelSize with
    | error e => rfl
    | ok side =>
      show before.redraw _ = before.redraw _
      rw [h.tapePixel (squareSide_pos hside hsize) instr width]
  unfold Piece.draw Piece.drawOver
  rw [hpaint]
  rfl

end TapePiece

/-! ## Updates one after the other -/

/-- A piece after updates with the given speeds. -/
def Piece.updated [Host] (piece : Piece) (speeds : List Datum) : Piece :=
  piece.handled (speeds.map fun speed => .update speed {})

namespace TapePiece

/-- The steps of an update with a speed; there are none if the speed is no number of steps. -/
def stepsAt (speed : Datum) : Nat :=
  ((Beat.Value.ofNumber? speed).bind stepsOf).getD 0

/-- The steps of updates with the given speeds. -/
def stepsOver (speeds : List Datum) : Nat :=
  (speeds.map stepsAt).sum

theorem update_stepsAt [Host] (piece : TapePiece) (speed : Datum) :
    (piece.update speed).1 = (piece.run (stepsAt speed)).1 := by
  unfold update stepsAt
  cases (Beat.Value.ofNumber? speed).bind stepsOf with
  | none => rfl
  | some steps => rfl

/-- **Updates one after the other are one run**, as long as no step of it fails. -/
theorem updated_tape [Host] (piece : TapePiece) (speeds : List Datum) (h : (piece.run (stepsOver speeds)).2 = none) :
    (Piece.tape piece).updated speeds = .tape (piece.run (stepsOver speeds)).1 := by
  induction speeds generalizing piece with
  | nil => rfl
  | cons speed speeds ih =>
    have hsum : stepsOver (speed :: speeds) = stepsAt speed + stepsOver speeds := by
      rw [stepsOver, List.map_cons, List.sum_cons, stepsOver]
    rw [hsum] at h ⊢
    have hfirst : (piece.run (stepsAt speed)).2 = none := by
      by_cases hfault : (piece.run (stepsAt speed)).2 = none
      · exact hfault
      · rw [run_of_fault _ _ hfault] at h
        exact h
    have hupdate : (Piece.tape piece).handle (.update speed {}) = .tape (piece.run (stepsAt speed)).1 := by
      show Piece.tape (piece.update speed).1 = _
      rw [update_stepsAt]
    rw [← run_run _ _ hfirst] at h ⊢
    show ((Piece.tape piece).handle (.update speed {})).updated speeds = _
    rw [hupdate]
    exact ih _ h

end TapePiece

/-! ## Runs inside their tapes -/

namespace Tape

/-- A run comes to no end of its tape: it does not go around a ring, and a growing tape has room to grow. -/
def StaysInside [Host] (program : Program) (policy : Policy) (input : Input) (n : Nat) : Prop :=
  match policy with
  | .ring modulus =>
    1 ≤ modulus ∧ ∀ k < n, ¬ (run program k (.blank (.ring modulus)) input).state.GoesAround program modulus
  | .grow chunk => 1 ≤ chunk ∧ (run program n (.blank (.grow chunk)) input).fault = none

/-- Such a run follows the endless machine. -/
theorem follows_of_staysInside [Host] {program : Program} {policy : Policy} {input : Input} {n : Nat}
    (h : StaysInside program policy input n) :
    (run program n (.blank policy) input).fault = none
    ∧ (run program n (.blank policy) input).Follows ((Endless.blank input).run program n) := by
  cases policy with
  | ring modulus =>
    obtain ⟨hpos, hinside⟩ := h
    obtain ⟨store, hstands⟩ := run_ring_stands program hpos input hinside
    exact ⟨hstands.fault, hstands.follows⟩
  | grow chunk =>
    obtain ⟨hpos, hfault⟩ := h
    exact ⟨hfault, follows_of_run_grow program hpos input hfault⟩

theorem Outcome.Follows.getD_cells {σ : Type} {outcome : Outcome σ} {machine : Endless σ} (h : outcome.Follows machine)
    (i : Nat) : outcome.state.cells.getD i 0 = machine.cells i := by
  rw [Array.getD_eq_getD_getElem?]
  by_cases hi : i < outcome.state.cells.size
  · rw [h.cells i hi, Option.getD_some]
  · have hle : outcome.state.cells.size ≤ i := Nat.le_of_not_lt hi
    rw [Array.getElem?_eq_none hle, Option.getD_none, h.zeros i hle]

end Tape

/-- **Pieces that stay inside their tapes match**, whatever tapes these are. -/
theorem TapePiece.matches_of_staysInside [Host] {program : Tape.Program} {text : String} {policy other : Tape.Policy}
    {n : Nat}
    (h : Tape.StaysInside program policy (.cycle text) n) (h' : Tape.StaysInside program other (.cycle text) n)
    (size : Datum) :
    ((start program text size policy).run n).2 = none ∧ ((start program text size other).run n).2 = none
    ∧ ((start program text size policy).run n).1.Matches ((start program text size other).run n).1 := by
  obtain ⟨hfault, hfollows⟩ := Tape.follows_of_staysInside h
  obtain ⟨hfault', hfollows'⟩ := Tape.follows_of_staysInside h'
  refine ⟨?_, ?_, ⟨rfl, rfl, rfl, hfollows.pc.trans hfollows'.pc.symm, hfollows.ptr.trans hfollows'.ptr.symm,
    hfollows.output.trans hfollows'.output.symm, hfollows.input.trans hfollows'.input.symm, ?_⟩⟩
  · show Option.map PieceError.step (Tape.run program n (.blank policy) (Tape.Input.cycle text)).fault = none
    rw [hfault]
    rfl
  · show Option.map PieceError.step (Tape.run program n (.blank other) (Tape.Input.cycle text)).fault = none
    rw [hfault']
    rfl
  · intro i
    exact (hfollows.getD_cells i).trans (hfollows'.getD_cells i).symm

/-! ## Heirs -/

namespace Piece

variable {σ : Type} [Draw.Source σ] [Draw.NonnegSource σ]

/-- A mutation without a chance starts the same program on the default ring. -/
theorem ends_mutateBy_idle (piece : TapePiece) {datum : Datum} {chance : Float} (hchance : datum.chance? = some chance)
    (hidle : ¬ 0.0 < chance) (source : σ) :
    Ends ((tape piece).mutateBy datum) source
      (fun child _ => child = .tape (.start piece.program piece.inputText piece.pixelSize .default))
      (fun e _ => ∃ cause, e = .evolution cause ∧ Evolution.RunsDry σ cause) := by
  unfold mutateBy
  rw [hchance]
  refine (ends_evolving (Evolution.ends_mutateTape_idle piece.program hidle source)).bind ?_
  rintro program rest rfl
  exact ends_pure rfl

/-- **The heir of a mutation without a chance.** Such a mutation fails only if its source runs dry. Its heir has the
program, the text and the size of squares of the piece and starts on the default ring. So if the piece is on the
default ring, its heir does what the piece does that is reset. If the piece is on another tape, the two still have
the same pointers, output and score after any updates, and are drawn alike, unless a run of so many steps crosses an
end of its tape. -/
theorem mutateBy_idle [Host] (piece : TapePiece) {datum : Datum} {chance : Float}
    (hchance : datum.chance? = some chance) (hidle : ¬ 0.0 < chance) (source : σ) :
    (∀ e rest, (tape piece).mutateBy datum source = (.error e, rest) →
      ∃ cause, e = .evolution cause ∧ Evolution.RunsDry σ cause)
    ∧ ∀ child rest, (tape piece).mutateBy datum source = (.ok child, rest) →
      child = .tape (.start piece.program piece.inputText piece.pixelSize .default)
      ∧ (piece.state.policy = .default →
        ∀ handlings, child.handled handlings = (tape piece).reset.handled handlings)
      ∧ ∀ speeds,
        Tape.StaysInside piece.program .default (.cycle piece.inputText) (TapePiece.stepsOver speeds) →
        Tape.StaysInside piece.program piece.state.policy (.cycle piece.inputText) (TapePiece.stepsOver speeds) →
        ∃ heir own, child.updated speeds = .tape heir
          ∧ (tape piece).reset.updated speeds = .tape own
          ∧ heir.Matches own ∧ heir.score = own.score
          ∧ ((∀ n, piece.pixelSize = .int n → 0 ≤ n) →
            ∀ width height, (tape heir).draw width height = (tape own).draw width height) := by
  have hends := ends_mutateBy_idle piece hchance hidle source
  refine ⟨fun e rest => hends.of_error, ?_⟩
  intro child rest hchild
  obtain rfl := hends.of_ok hchild
  refine ⟨rfl, ?_, ?_⟩
  · intro hpolicy handlings
    show _ = (tape (.start piece.program piece.inputText piece.pixelSize piece.state.policy)).handled handlings
    rw [hpolicy]
  · intro speeds hinside hinside'
    obtain ⟨hfault, hfault', hmatches⟩ := TapePiece.matches_of_staysInside hinside hinside' piece.pixelSize
    exact ⟨_, _, TapePiece.updated_tape _ speeds hfault, TapePiece.updated_tape _ speeds hfault', hmatches,
      hmatches.score, fun hsize => hmatches.draw hsize⟩

/-- A twister does not run dry, so a mutation without a chance has an heir. -/
theorem exists_heir (piece : TapePiece) (twister : Draw.Twister) :
    ∃ rest, (tape piece).mutateBy (.int 0) twister
      = (.ok (.tape (.start piece.program piece.inputText piece.pixelSize .default)), rest) := by
  have hchance : (Datum.int 0).chance? = some 0.0 := by decide +kernel
  have hends := ends_mutateBy_idle piece hchance (by decide +kernel) twister
  rcases hresult : (tape piece).mutateBy (.int 0) twister with ⟨e | child, rest⟩
  · obtain ⟨cause, _, dry, _, source, rest', hdry⟩ := hends.of_error hresult
    cases hdry
  · rw [hends.of_ok hresult]
    exact ⟨rest, rfl⟩

open scoped Host in
/-- A piece on a growing tape that stays on its first cell, and its heir. -/
theorem mutateBy_idle_drone : ∃ piece child rest heir own,
    ofText .tape (Text.codesOf "-[.]") { policy := some (.grow 64) } = .ok (.tape piece)
    ∧ (Datum.int 0).chance? = some 0.0 ∧ ¬ (0.0 : Float) < 0.0
    ∧ (tape piece).mutateBy (.int 0) (Draw.Twister.ofSeed 1) = (.ok child, rest)
    ∧ TapePiece.stepsOver [.int 4, .int 5] = 9
    ∧ Tape.StaysInside piece.program .default (.cycle piece.inputText) 9
    ∧ Tape.StaysInside piece.program piece.state.policy (.cycle piece.inputText) 9
    ∧ child.updated [.int 4, .int 5] = .tape heir ∧ (tape piece).reset.updated [.int 4, .int 5] = .tape own
    ∧ heir.Matches own ∧ heir.score = own.score := by
  let piece : TapePiece := .start drone defaultInputText (.int defaultPixelSize) (.grow 64)
  have hchance : (Datum.int 0).chance? = some 0.0 := by decide +kernel
  have hidle : ¬ (0.0 : Float) < 0.0 := by decide +kernel
  have hsteps : TapePiece.stepsOver [.int 4, .int 5] = 9 := by decide
  have hring : Tape.StaysInside piece.program .default (.cycle piece.inputText) 9 :=
    ⟨by decide, fun _ _ => not_goesAround_drone _ _⟩
  have hgrow : Tape.StaysInside piece.program piece.state.policy (.cycle piece.inputText) 9 :=
    ⟨by decide, by decide +kernel⟩
  obtain ⟨rest, hchild⟩ := exists_heir piece (Draw.Twister.ofSeed 1)
  obtain ⟨_, hheir⟩ := mutateBy_idle piece hchance hidle (Draw.Twister.ofSeed 1)
  obtain ⟨_, _, hinside⟩ := hheir _ rest hchild
  obtain ⟨heir, own, hupdated, hown, hmatches, hscore, _⟩ := hinside [.int 4, .int 5] hring hgrow
  exact ⟨piece, _, rest, heir, own, rfl, hchance, hidle, hchild, hsteps, hring, hgrow, hupdated, hown, hmatches, hscore⟩

open scoped Host in
/-- **An heir does not always do what the piece does.** On a growing tape `-<.+.` stays on its first cell, while its
heir goes around the default ring. -/
theorem heir_goes_around : ∃ piece child rest heir own,
    ofText .tape (Text.codesOf "-<.+.") { policy := some (.grow 64) } = .ok (.tape piece)
    ∧ (tape piece).mutateBy (.int 0) (Draw.Twister.ofSeed 1) = (.ok child, rest)
    ∧ child.updated [.int 5] = .tape heir ∧ (tape piece).reset.updated [.int 5] = .tape own
    ∧ heir.state.ptr = 255 ∧ own.state.ptr = 0
    ∧ heir.state.output = #[0, 1] ∧ own.state.output = #[-1, 0] ∧ heir.score < own.score := by
  let program : Tape.Program := ⟨#[.dec, .left, .write, .inc, .write], #[none, none, none, none, none], rfl⟩
  let piece : TapePiece := .start program defaultInputText (.int defaultPixelSize) (.grow 64)
  obtain ⟨rest, hchild⟩ := exists_heir piece (Draw.Twister.ofSeed 1)
  refine ⟨piece, _, rest, _, _, rfl, hchild, rfl, rfl, ?_, ?_, ?_, ?_, ?_⟩
  all_goals decide +kernel

end Piece

end ProgramArt
