import ProgramArt.Proofs.Draw.Draws
import ProgramArt.Proofs.Evolution.Mutation

/-!
# Mutations without a chance

A mutation draws a number for every instruction and replaces the instruction if the number is less than the chance.
What is drawn is never negative. So with a chance that is not positive nothing is replaced, although as much is drawn
as with any other chance (`ends_mutateTape_idle`).
-/

namespace ProgramArt.Evolution

open Tape

variable {σ : Type} [Draw.Source σ] [Draw.NonnegSource σ]

/-- A draw that failed, because its source has run dry. -/
def RunsDry (σ : Type) [Draw.Source σ] (e : EvolutionError) : Prop :=
  ∃ dry, e = .exhausted dry ∧ ∃ source rest : σ, Draw.Source.unit source = (.error dry, rest)

theorem ends_drawUnit_nonneg (source : σ) :
    Ends drawUnit source (fun x _ => 0.0 ≤ x) (fun e _ => RunsDry σ e) := by
  constructor
  unfold drawUnit Draw.Draws.unit
  rcases hdraw : Draw.Source.unit source with ⟨dry | x, rest⟩
  · exact ⟨dry, rfl, source, rest, hdraw⟩
  · exact Draw.NonnegSource.zero_le_unit hdraw

theorem ends_mutateInstr_idle {chance : Float} (hidle : ¬ 0.0 < chance) (instr : Instr) (source : σ) :
    Ends (mutateInstr chance instr) source (fun new _ => instr = new) (fun e _ => RunsDry σ e) := by
  refine (ends_drawUnit_nonneg source).bind ?_
  intro x rest hx
  rw [if_neg fun h => Binary64.not_lt_of_nonneg hx hidle h.1]
  exact ends_pure rfl

/-- **A mutation without a chance gives the program itself**, unless the source runs dry. -/
theorem ends_mutateTape_idle (program : Program) {chance : Float} (hidle : ¬ 0.0 < chance) (source : σ) :
    Ends (mutateTape program chance) source (fun new _ => new = program) (fun e _ => RunsDry σ e) := by
  refine (ends_mapM (fun instr _ => ends_mutateInstr_idle hidle instr) source).bind ?_
  intro instrs rest hinstrs
  have hsame : program.instrs.toList = instrs := by
    rw [List.forall₂_eq_eq_eq] at hinstrs
    exact hinstrs
  rw [← hsame, tapeOf, program.ofInstrs_instrs]
  exact ends_pure rfl

end ProgramArt.Evolution
