import ProgramArt.Host.Standard
import ProgramArt.Proofs.Number.Rounding
import ProgramArt.Proofs.Piece.Score
import ProgramArt.Proofs.Tape.Policies

/-!
# The range of the scores

Scores are meant to go from zero to one. An image keeps to that: its score is a sum of squares divided by whole
numbers, so it has no minus sign, and it is cut off at one (`Interest.ofPixels_bounds`). The output of a tape program
does not: one value that is written over and over scores a quarter of its length, however long it is
(`Interest.ofOutput_replicate`, `Piece.Repeats`).
-/

namespace ProgramArt

open Binary64

namespace Interest

/-! ## Images -/

/-- Sums have no minus sign if none of what is added has one, in whatever order it is added. -/
theorem unsigned_total {xs : Array Float} (hxs : ∀ x ∈ xs, Unsigned x.toModel.unpack) (order : Summation) :
    Unsigned (order.total xs).toModel.unpack := by
  induction order with
  | nothing =>
    rw [Summation.total]
    exact .zero
  | item i =>
    rw [Summation.total, Array.getD]
    split
    · exact hxs _ (Array.getElem_mem _)
    · exact .zero
  | add left right ihleft ihright => exact unsigned_add ihleft ihright

/-- **No variance has a minus sign.** It is a sum of squares, divided by a whole number. -/
theorem unsigned_variance [Host] (xs : Array Float) : Unsigned (variance xs).toModel.unpack := by
  unfold variance
  dsimp only
  refine unsigned_div (unsigned_total ?_ _) (unsigned_ofNat _)
  intro square hsquare
  obtain ⟨x, _, rfl⟩ := Array.mem_map.mp hsquare
  exact unsigned_mul_self _

/-- **An image scores from zero to one.** -/
theorem ofPixels_bounds [Host] (pixels : List UInt8) : 0.0 ≤ ofPixels pixels ∧ ofPixels pixels ≤ 1.0 := by
  unfold ofPixels ofBytes
  split
  · decide
  · dsimp only
    split
    · rename_i hless
      have hpart : Unsigned (share pixels : Float).toModel.unpack :=
        unsigned_div (unsigned_variance (pixels.map UInt8.toFloat).toArray) (unsigned_mul_self 127.5)
      exact ⟨zero_le_of_unsigned hpart (isNaN_of_lt hless), le_of_float_lt hless⟩
    · decide

/-! ## Output -/

/-- One value over and over that is no control code scores a quarter of its length. -/
theorem ofOutput_replicate {v : Int} (hv : v < 0 ∨ 31 < v) {n : Nat} (hn : 0 < n) :
    ofOutput (List.replicate n v) = n / 4 := by
  obtain ⟨n, rfl⟩ := Nat.exists_eq_add_one_of_ne_zero (Nat.ne_of_gt hn)
  have hprinted : ¬ (List.replicate (n + 1) v).all (fun w => 0 ≤ w ∧ w ≤ 31) = true := by
    intro hall
    have hfirst := List.all_eq_true.mp hall v (List.mem_replicate.mpr ⟨by omega, rfl⟩)
    have hcontrol := of_decide_eq_true hfirst
    omega
  have hsame : (List.replicate (n + 1) v).all (fun w => some w == (List.replicate (n + 1) v).head?) = true := by
    simp [List.replicate_succ]
  rw [ofOutput, if_neg hprinted, if_pos hsame, List.length_replicate]

/-- **Output scores at most a hundred**, unless it is one value over and over. -/
theorem ofOutput_le (output : List Int) :
    ofOutput output ≤ 100
      ∨ ∃ v n, 404 ≤ n ∧ (v < 0 ∨ 31 < v) ∧ output = List.replicate n v := by
  unfold ofOutput
  split
  · omega
  · rename_i hcontrol
    split
    · rename_i hsame
      cases output with
      | nil => simp at hcontrol
      | cons v rest =>
        by_cases hshort : (v :: rest).length < 404
        · omega
        · have hrest : ∀ w ∈ v :: rest, w = v := by simpa using hsame
          refine .inr ⟨v, (v :: rest).length, by omega, ?_, List.eq_replicate_of_mem hrest⟩
          by_contra hinside
          refine hcontrol (List.all_eq_true.mpr ?_)
          intro w hw
          rw [hrest w hw]
          exact decide_eq_true (by omega)
    · split <;> omega

end Interest

/-! ## Hundredths -/

/-- Up to a hundred hundredths are at most one. -/
theorem hundredths_le_one : ∀ n < 101, ofNat n / 100.0 ≤ 1.0 := by
  decide +kernel

/-- More than a hundred hundredths are more than one. From 256 on the exponent of the quotient tells. -/
theorem one_lt_hundredths {n : Nat} (hn : 100 < n) : 1.0 < ofNat n / 100.0 := by
  by_cases hsmall : n < 256
  · have hall : ∀ n < 256, 100 < n → 1.0 < ofNat n / 100.0 := by decide +kernel
    exact hall n hsmall hn
  · have hreach := reaches_ofNat (n := n) (k := 8) (by decide) (by omega)
    have hquotient := reaches_div hreach (y := 100.0) rfl (by decide) (by decide) (by decide)
    exact lt_of_reaches hquotient rfl (by decide)

/-! ## Pieces -/

namespace TapePiece

/-- The output of a tape piece is one value that is no control code, so many times over. -/
def Repeats (piece : TapePiece) (value : Int8) (count : Nat) : Prop :=
  (value.toInt < 0 ∨ 31 < value.toInt) ∧ piece.state.output = Array.replicate count value

variable (piece : TapePiece)

theorem zero_le_score : 0.0 ≤ piece.score :=
  zero_le_of_unsigned (unsigned_div (unsigned_ofNat _) (.finite _ _ _)) piece.isNaN_score

/-- A score above one is that of a value which is written over and over. -/
theorem score_le_one_or : piece.score ≤ 1.0 ∨ ∃ value count, 404 ≤ count ∧ piece.Repeats value count := by
  rcases Interest.ofOutput_le (piece.state.output.toList.map Int8.toInt) with hle | ⟨v, n, hlong, hv, hout⟩
  · exact .inl (hundredths_le_one _ (Nat.lt_succ_of_le hle))
  · have hsize : piece.state.output.size = n := by
      simpa using congrArg List.length hout
    have hall : ∀ w ∈ piece.state.output, w.toInt = v := by
      intro w hw
      have hmem := List.mem_map_of_mem (f := Int8.toInt) (Array.mem_toList_iff.mpr hw)
      rw [hout] at hmem
      exact List.eq_of_mem_replicate hmem
    have hfirst : piece.state.output[0].toInt = v := hall _ (Array.getElem_mem _)
    refine .inr ⟨piece.state.output[0], n, hlong, ?_, Array.eq_replicate_iff.mpr ⟨hsize, ?_⟩⟩
    · rw [hfirst]
      exact hv
    · intro w hw
      exact Int8.toInt_inj.mp ((hall w hw).trans hfirst.symm)

/-- A value that is written over and over makes a score above one. -/
theorem one_lt_score {value : Int8} {count : Nat} (h : piece.Repeats value count) (hlong : 404 ≤ count) :
    1.0 < piece.score := by
  have hscore : Interest.ofOutput (piece.state.output.toList.map Int8.toInt) = count / 4 := by
    rw [h.2, Array.toList_replicate, List.map_replicate]
    exact Interest.ofOutput_replicate h.1 (by omega)
  unfold score
  dsimp only
  rw [hscore]
  exact one_lt_hundredths (by omega)

end TapePiece

/-- A formula piece writes nothing. -/
def Piece.Repeats (value : Int8) (count : Nat) : Piece → Prop
  | .tape piece => piece.Repeats value count
  | .beat _ => False

/-! ## A piece that repeats itself -/

section Drone

open Tape

variable {σ : Type} [Source σ]

/-- Counts its first cell down to minus one and writes it for ever. -/
def drone : Program := ⟨#[.dec, .enter, .write, .leave], #[none, some 3, none, some 1], rfl⟩

/-- After three steps it has written once, and then once for every two steps. -/
theorem run_drone (input : σ) (k : Nat) :
    (Endless.blank input).run drone (2 * k + 3)
      = { (Endless.blank input).put (-1) with pc := 3, output := Array.replicate (k + 1) (-1) } := by
  induction k with
  | zero => rfl
  | succ k ih =>
    -- the bracket goes back into the loop, where the value is written once more
    rw [show 2 * (k + 1) + 3 = 2 * k + 3 + 1 + 1 by omega, Endless.run, Endless.run, ih,
      Array.replicate_succ (n := k + 1)]
    rfl

theorem not_goesAround_drone (state : State) (modulus : Int) : ¬ state.GoesAround drone modulus := by
  have hget (instr : Instr) (h : state.current? drone = some instr) : instr ∈ drone.instrs.toList := by
    unfold State.current? at h
    split at h
    · cases h
    · obtain ⟨i, _, rfl⟩ := Option.map_eq_some_iff.mp h
      exact Array.getElem_mem_toList _
  rintro (⟨hleft, _⟩ | ⟨hright, _⟩)
  · exact absurd (hget _ hleft) (by decide)
  · exact absurd (hget _ hright) (by decide)

/-- A frame of at most the greatest speed runs so many steps. -/
theorem TapePiece.update_int [Host] (piece : TapePiece) {n : Nat} (h : n ≤ maxSpeed) :
    piece.update (.int n) = piece.run n := by
  change piece.run (min (n : Int).toNat maxSpeed) = _
  rw [Int.toNat_natCast, Nat.min_eq_left h]

open scoped Host in
/-- A frame of `-[.]` that writes minus one so many times over. -/
theorem exists_repeats (k : Nat) (hspeed : 2 * k + 3 ≤ maxSpeed) : ∃ start piece,
    Piece.ofText .tape (Text.codesOf "-[.]") {} = .ok start
    ∧ start.update (.int (2 * k + 3 : Nat)) {} = (piece, none)
    ∧ piece.Repeats (-1) (k + 1) := by
  obtain ⟨start, hstart⟩ : ∃ start : TapePiece,
      start = .start drone defaultInputText (.int defaultPixelSize) (.ring 256) := ⟨_, rfl⟩
  obtain ⟨store, hstands⟩ := run_ring_stands drone (show (1 : Int) ≤ 256 by decide) start.input
    (n := 2 * k + 3) (fun _ _ => not_goesAround_drone _ _)
  have hstate : start.state = State.blank (.ring 256) := by rw [hstart]; rfl
  have hprogram : start.program = drone := by rw [hstart]; rfl
  refine ⟨.tape start, .tape (start.run (2 * k + 3)).1, by rw [hstart]; rfl, ?_, ⟨by decide, ?_⟩⟩
  · rw [Piece.update, start.update_int hspeed]
    dsimp only [TapePiece.run]
    rw [hprogram, hstate, hstands.fault]
    rfl
  · have hshown := hstands.shows.output
    rw [run_drone start.input k] at hshown
    dsimp only [TapePiece.run]
    rw [hprogram, hstate, hstands.state]
    exact hshown

end Drone

/-! ## All pieces -/

/-- **Scores go from zero to one, except for pieces that repeat themselves.** Whatever was done with a piece, its
score is not negative; and it is at most one, unless the piece has written a single value 404 times or more and
the value is no control code. Then the score is more than one. -/
theorem Piece.score_range [Host] (piece : Piece) :
    0.0 ≤ piece.score
    ∧ (piece.score ≤ 1.0 ∨ ∃ value count, 404 ≤ count ∧ piece.Repeats value count)
    ∧ ∀ value count, piece.Repeats value count → 404 ≤ count → 1.0 < piece.score := by
  cases piece with
  | tape piece => exact ⟨piece.zero_le_score, piece.score_le_one_or, fun _ _ => piece.one_lt_score⟩
  | beat piece =>
    obtain ⟨hzero, hone⟩ := Interest.ofPixels_bounds piece.image.flatten
    exact ⟨hzero, .inl hone, fun _ _ hrepeats => hrepeats.elim⟩

open scoped Host in
/-- A piece that has written 500 times. -/
theorem Piece.score_range_repeats : ∃ start piece,
    Piece.ofText .tape (Text.codesOf "-[.]") {} = .ok start
    ∧ start.update (.int 1001) {} = (piece, none)
    ∧ piece.Repeats (-1) 500 ∧ 0.0 ≤ piece.score ∧ 1.0 < piece.score := by
  obtain ⟨start, piece, hstart, hupdate, hrepeats⟩ := exists_repeats 499 (by decide)
  obtain ⟨hzero, _, hone⟩ := Piece.score_range piece
  exact ⟨start, piece, hstart, hupdate, hrepeats, hzero, hone (-1) 500 hrepeats (by decide)⟩

open scoped Host in
/-- **Not every piece scores at most one.** After 809 steps `-[.]` has written 404 times. -/
theorem one_lt_score_drone : ∃ start piece,
    Piece.ofText .tape (Text.codesOf "-[.]") {} = .ok start
    ∧ start.update (.int 809) {} = (piece, none)
    ∧ 1.0 < piece.score := by
  obtain ⟨start, piece, hstart, hupdate, hrepeats⟩ := exists_repeats 403 (by decide)
  refine ⟨start, piece, hstart, hupdate, ?_⟩
  cases piece with
  | tape piece => exact piece.one_lt_score hrepeats (Nat.le_refl 404)
  | beat piece => exact hrepeats.elim

end ProgramArt
