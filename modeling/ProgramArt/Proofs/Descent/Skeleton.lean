import ProgramArt.Host.Standard
import ProgramArt.Proofs.Descent.Unbroken
import ProgramArt.Proofs.Evolution.Skeleton

/-!
# One skeleton for a whole line

A mutation keeps the skeleton of a tape program, and the frames of a generation do not touch the program. So what
holds of the first piece of a run holds of all of them: they have one length and one table of jumps
(`Piece.SharesSkeleton`, `ends_run_sharesSkeleton`).
-/

namespace ProgramArt

/-! ## Pieces of one skeleton -/

namespace Piece

/-- Pieces of one kind. If they are tape pieces, their programs have one length and one table of jumps. -/
def SharesSkeleton : Piece → Piece → Prop
  | tape a, tape b => b.program.size = a.program.size ∧ b.program.jumps = a.program.jumps
  | beat _, beat _ => True
  | tape _, beat _ | beat _, tape _ => False

theorem sharesSkeleton_refl (piece : Piece) : piece.SharesSkeleton piece := by
  cases piece with
  | tape piece => exact ⟨rfl, rfl⟩
  | beat piece => trivial

/-- Only the program of a piece counts, which frames keep. -/
theorem SharesSkeleton.of_makings {origin a b : Piece} (h : origin.SharesSkeleton a)
    (hmakings : b.makings = a.makings) :
    origin.SharesSkeleton b := by
  cases a with
  | tape a =>
    cases b with
    | beat b => cases hmakings
    | tape b =>
      have hprogram : b.program = a.program := congrArg Prod.fst (Sum.inl.inj hmakings)
      cases origin with
      | beat origin => exact h
      | tape origin =>
        show b.program.size = origin.program.size ∧ b.program.jumps = origin.program.jumps
        rw [hprogram]
        exact h
  | beat a =>
    cases b with
    | tape b => cases hmakings
    | beat b => cases origin <;> exact h

/-- Beside a tape piece there are only tape pieces, with its length and its table of jumps. -/
theorem SharesSkeleton.exists_tape {origin b : Piece} {a : TapePiece} (ha : origin.SharesSkeleton (tape a))
    (hb : origin.SharesSkeleton b) :
    ∃ other, b = tape other ∧ other.program.size = a.program.size ∧ other.program.jumps = a.program.jumps := by
  cases origin with
  | beat origin => exact ha.elim
  | tape origin =>
    cases b with
    | beat b => exact hb.elim
    | tape b => exact ⟨b, rfl, hb.1.trans ha.1.symm, hb.2.trans ha.2.symm⟩

/-- A mutation passes the skeleton on. -/
theorem ends_mutate_sharesSkeleton {σ : Type} [Draw.Source σ] [Draw.LawfulSource σ] {origin piece : Piece}
    (h : origin.SharesSkeleton piece) (chance : Float) (source : σ) :
    Ends (piece.mutate chance) source (fun new _ => origin.SharesSkeleton new) (fun _ _ => True) := by
  cases piece with
  | tape piece =>
    refine (ends_mutate_tape piece chance source).mono ?_ fun _ _ _ => trivial
    rintro new _ ⟨program, hkeeps, rfl⟩
    obtain ⟨hsize, hjumps⟩ := Evolution.jumps_of_keepsBracket hkeeps
    cases origin with
    | beat origin => exact h
    | tape origin => exact ⟨hsize.trans h.1, hjumps.trans h.2⟩
  | beat piece =>
    refine (ends_mutate_beat piece chance source).mono ?_ fun _ _ _ => trivial
    rintro new _ ⟨program, -, rfl⟩
    cases origin <;> exact h

end Piece

/-! ## Lines of one skeleton -/

namespace Descent

variable {σ : Type} [Draw.Source σ] [Draw.LawfulSource σ]

theorem passesOn_sharesSkeleton [Host] (σ : Type) [Draw.Source σ] [Draw.LawfulSource σ] (config : Config)
    (origin : Piece) :
    PassesOn σ config origin.SharesSkeleton (fun piece _ => origin.SharesSkeleton piece) (fun _ => True) where
  harmless _ _ := trivial
  mutate h chance source := Piece.ends_mutate_sharesSkeleton h chance source
  advance h hadvance := h.of_makings (makings_advance hadvance)
  fails _ _ := trivial

/-- **The skeleton passes on along a line.** -/
theorem ends_run_sharesSkeleton [Host] (start : Option Piece) (d : Descent σ) :
    Ends (run start) d
      (fun results d' => ∃ (origin : Piece) (line : List (Piece × Float)),
        (∀ grown ∈ line, origin.SharesSkeleton grown.1)
        ∧ Completed d line results d')
      (fun _ _ => True) :=
  ends_run_of_start rfl (fun _ _ => trivial) (fun d' _ => ends_startPiece start d') fun origin _ =>
    ⟨origin.SharesSkeleton, passesOn_sharesSkeleton σ d.config origin, origin.sharesSkeleton_refl⟩

end Descent

/-! ## Mutations -/

open Tape Evolution Draw

/-- **A mutation keeps the skeleton of a tape program and nothing else.** Draws that never run dry always lead to a
program. Its brackets stand where they stood, so that its length and its table of jumps are the same, and what is not
selected is kept. One number is drawn for each instruction, and one index for each selected one that is no bracket.
Without a chance nothing changes; with the chance one exactly the programs with the same skeleton can come out. All
pieces of a run with a tape piece among them are tape pieces of one length and one table of jumps. -/
theorem mutateTape_keeps_skeleton [Host] :
    (∀ {σ : Type} [Draw.Source σ] [LawfulSource σ] [NonnegSource σ] [EndlessSource σ] (program : Tape.Program)
        (chance : Float) (source : σ),
      ∃ new rest turns, mutateTape program chance source = (.ok new, rest)
        ∧ Ledger chance replacements program.instrs.toList source turns rest
        ∧ new.instrs.toList = turns.map (Turn.new replacements)
        ∧ List.Forall₂ KeepsBracket program.instrs.toList new.instrs.toList
        ∧ new.size = program.size ∧ new.jumps = program.jumps
        ∧ (∀ turn ∈ turns, ¬ turn.number < chance → turn.new replacements = turn.old)
        ∧ (turns.flatMap (Turn.draws replacements)).countP Drawn.isUnit = program.size
        ∧ (turns.flatMap (Turn.draws replacements)).countP (fun drawn => !drawn.isUnit)
          = turns.countP (fun turn => decide (turn.number < chance ∧ turn.old.isBracket = false))
        ∧ (¬ 0.0 < chance → new = program))
    ∧ (∀ program new : Tape.Program,
      (∃ values rest, mutateTape program 1.0 (⟨values, 0⟩ : Script) = (.ok new, rest))
        ↔ List.Forall₂ KeepsBracket program.instrs.toList new.instrs.toList)
    ∧ ∀ {σ : Type} [Draw.Source σ] [LawfulSource σ] (start : Option Piece) (d d' : Descent σ)
      (results : Descent.Results),
      Descent.run start d = (.ok results, d') →
      ∃ line, Descent.Completed d line results d'
        ∧ ∀ a ∈ line, ∀ b ∈ line, ∀ piece, a.1 = .tape piece →
          ∃ other, b.1 = .tape other ∧ other.program.size = piece.program.size
            ∧ other.program.jumps = piece.program.jumps := by
  refine ⟨?_, ?_, ?_⟩
  · intro σ _ _ _ _ program chance source
    obtain ⟨turns, rest, hledger⟩ := exists_ledger chance replacements program.instrs.toList source
    obtain ⟨new, hnew, hinstrs, hkeeps⟩ := mutateTape_of_ledger hledger
    obtain ⟨hsize, hjumps⟩ := jumps_of_keepsBracket hkeeps
    have hnumbers := hledger.count_isUnit
    have hindices := hledger.count_not_isUnit
    -- what has something to choose from is no bracket
    simp only [replacements_ne_nil] at hindices
    refine ⟨new, rest, turns, hnew, hledger, hinstrs, hkeeps, hsize, hjumps, ?_, hnumbers, hindices, ?_⟩
    · intro turn hturn hnumber
      exact (hledger.fair turn hturn).new_of_not_lt hnumber
    · intro hidle
      apply eq_of_instrs_eq
      rw [hinstrs, hledger.map_new_of_idle hidle]
  · intro program new
    constructor
    · rintro ⟨values, rest, hnew⟩
      exact (ends_mutateTape program 1.0 _).of_ok hnew
    · intro hkeeps
      obtain ⟨values, hvalues⟩ := exists_mutateTape_script hkeeps
      exact ⟨values, _, hvalues⟩
  · intro σ _ _ start d d' results hrun
    obtain ⟨origin, line, hline, hcompleted⟩ := (Descent.ends_run_sharesSkeleton start d).of_ok hrun
    refine ⟨line, hcompleted, ?_⟩
    intro a ha b hb piece hpiece
    have hshares := hline a ha
    rw [hpiece] at hshares
    exact hshares.exists_tape (hline b hb)

/-- A program with a loop: `+[-]`. -/
def looping : Tape.Program :=
  ⟨#[.inc, .enter, .dec, .leave], #[none, some 3, none, some 1], by decide⟩

/-- A line that starts from the loop and comes to `-[+]` in one generation. -/
def loopingLine : Descent Script where
  clock := { timestamp := "2025-01-01T00:00:00", time := "00:00:00" }
  config :=
    ⟨fun
      | .kind => .str "brainfuck"
      | .program => .str "+[-]"
      | .mutationChance => .float 1.0
      | .generations => .int 1
      | s => s.initial⟩
  source := { rest := [0, 1, 0, 0, 0, 0] }
  archive := { lineage := ⟨[]⟩ }
  folder := { home := [], root := .directory [] }

open scoped Host in
theorem mutateTape_keeps_skeleton_looping :
    (∃ new rest, mutateTape looping 0.5 (Twister.ofSeed 7) = (.ok new, rest) ∧ new.size = 4
      ∧ new.jumps = #[none, some 3, none, some 1])
    ∧ ¬ (0.0 : Float) < -1.0 ∧ (∃ rest, mutateTape looping (-1.0) (Twister.ofSeed 7) = (.ok looping, rest))
    ∧ ∃ results d', Descent.run none loopingLine = (.ok results, d')
      ∧ ∃ line, Descent.Completed loopingLine line results d'
        ∧ ∀ a ∈ line, ∀ b ∈ line, ∀ piece, a.1 = .tape piece →
          ∃ other, b.1 = .tape other ∧ other.program.size = piece.program.size
            ∧ other.program.jumps = piece.program.jumps := by
  have hidle : ¬ (0.0 : Float) < -1.0 := by decide +kernel
  have hcompletes : (match Descent.run none loopingLine with
      | (.ok _, _) => true
      | _ => false) = true := by decide +kernel
  obtain ⟨hmutation, -, hline⟩ := mutateTape_keeps_skeleton
  obtain ⟨new, rest, -, hnew, -, -, -, hsize, hjumps, -⟩ := hmutation looping 0.5 (Twister.ofSeed 7)
  obtain ⟨kept, left, -, hkept, -, -, -, -, -, -, -, -, hsame⟩ := hmutation looping (-1.0) (Twister.ofSeed 7)
  rw [hsame hidle] at hkept
  refine ⟨⟨new, rest, hnew, hsize, hjumps⟩, hidle, ⟨left, hkept⟩, ?_⟩
  rcases hrun : Descent.run none loopingLine with ⟨e | results, d'⟩
  · rw [hrun] at hcompletes
    cases hcompletes
  · exact ⟨results, d', rfl, hline none loopingLine d' results hrun⟩

end ProgramArt
