import ProgramArt.Proofs.Evolution.Ledger

/-!
# The skeleton of a tape program

The brackets of a tape program and their places are its skeleton. A mutation leaves it as it is, and so the matching
of the brackets and the table of jumps (`jumps_of_keepsBracket`). All else is up to the draws: with the chance one
every program with the same skeleton comes out of some script (`exists_mutateTape_script`).
-/

namespace ProgramArt.Evolution

open Tape Draw

/-! ## One skeleton, one table -/

/-- An instruction that is no bracket is passed over. -/
theorem bracketPairs_cons_of_isBracket {instr : Instr} (h : instr.isBracket = false) (position : Nat)
    (pending : List Nat) (rest : List Instr) :
    bracketPairs position pending (instr :: rest) = bracketPairs (position + 1) pending rest := by
  cases instr with
  | enter | leave => cases h
  | inc | dec | left | right | read | write => cases pending <;> rfl

theorem bracketPairs_of_keepsBracket {instrs news : List Instr} (h : List.Forall₂ KeepsBracket instrs news)
    (position : Nat) (pending : List Nat) :
    bracketPairs position pending news = bracketPairs position pending instrs := by
  induction h generalizing position pending with
  | nil => rfl
  | @cons instr new instrs news hkeeps _ ih =>
    cases hbracket : instr.isBracket with
    | false => rw [bracketPairs_cons_of_isBracket hbracket, bracketPairs_cons_of_isBracket (hkeeps.2 hbracket), ih]
    | true =>
      rw [hkeeps.1 hbracket]
      cases instr with
      | enter => rw [bracketPairs, bracketPairs, ih]
      | leave =>
        cases pending with
        | nil => rfl
        | cons start pending => rw [bracketPairs, bracketPairs, ih]
      | _ => cases hbracket

/-- **One skeleton, one table of jumps.** -/
theorem jumps_of_keepsBracket {program new : Program}
    (h : List.Forall₂ KeepsBracket program.instrs.toList new.instrs.toList) :
    new.size = program.size ∧ new.jumps = program.jumps := by
  have hlength := h.length_eq
  refine ⟨hlength.symm, ?_⟩
  have hnew := new.jumps_eq
  rw [jumpTable_eq_ofPairs, bracketPairs_of_keepsBracket h, ← hlength, ← jumpTable_eq_ofPairs, program.jumps_eq] at hnew
  exact (Except.ok.inj hnew).symm

/-! ## Replacements -/

/-- What may take the place of an instruction: nothing for a bracket, and anything but a bracket for the others. -/
def replacements (instr : Instr) : List Instr :=
  if instr.isBracket then [] else mutableInstrs

theorem keepsBracket_iff {instr new : Instr} :
    KeepsBracket instr new ↔ replacements instr = [] ∧ new = instr ∨ new ∈ replacements instr := by
  unfold KeepsBracket replacements
  cases hbracket : instr.isBracket with
  | true => simp
  | false =>
    have hne : mutableInstrs ≠ [] := by decide
    simp [hne, mem_mutableInstrs_iff]

theorem replacements_ne_nil {instr : Instr} : replacements instr ≠ [] ↔ instr.isBracket = false := by
  unfold replacements
  cases instr.isBracket <;> simp [mutableInstrs]

variable {σ : Type} [Draw.Source σ] {chance : Float}

/-- One instruction: the draws of its turn lead to what becomes of it. -/
theorem mutateInstr_of_fair {turn : Turn Instr} {source rest : σ} (hfair : turn.Fair chance replacements)
    (hdraws : HandsOut source (turn.draws replacements) rest) :
    mutateInstr chance turn.old source = (.ok (turn.new replacements), rest) := by
  obtain ⟨old, number, index⟩ := turn
  cases hdraws with
  | consUnit hunit hindex =>
    have hdrawn := hfair.drawn
    rw [replacements_ne_nil] at hdrawn
    refine bind_eq_ok.mpr ⟨number, _, drawUnit_eq_ok.mpr hunit, ?_⟩
    cases index with
    | none =>
      cases hindex
      rw [if_neg fun hselected => nomatch hdrawn.mpr hselected]
      rfl
    | some n =>
      have hselected := hdrawn.mp rfl
      -- the choices are not those of a bracket
      have hchoices : replacements old = mutableInstrs := if_neg (by rw [hselected.2]; decide)
      have hlt := hfair.within n rfl
      rw [if_pos hselected]
      cases hindex with
      | consBelow hbelow hnil =>
        cases hnil
        show drawFrom mutableInstrs _ = (.ok ((replacements old).getD n old), _)
        dsimp only at hbelow hlt
        rw [hchoices] at hbelow hlt ⊢
        rw [drawFrom_of_below hbelow, List.getD_eq_getElem _ _ hlt, List.getD_eq_getElem _ _ hlt]

theorem keepsBracket_of_fair {turn : Turn Instr} (h : turn.Fair chance replacements) :
    KeepsBracket turn.old (turn.new replacements) := by
  rcases h.new_eq_or_mem with hkept | hmem
  · rw [hkept]
    exact ⟨fun _ => rfl, id⟩
  · exact keepsBracket_iff.mpr (.inr hmem)

/-- **The ledger tells the mutation** of a program: it gives the program of what becomes of the instructions, and its
skeleton is that of the one before. -/
theorem mutateTape_of_ledger {program : Program} {source rest : σ} {turns : List (Turn Instr)}
    (h : Ledger chance replacements program.instrs.toList source turns rest) :
    ∃ new : Program, mutateTape program chance source = (.ok new, rest)
      ∧ new.instrs.toList = turns.map (Turn.new replacements)
      ∧ List.Forall₂ KeepsBracket program.instrs.toList new.instrs.toList := by
  have hkeeps : List.Forall₂ KeepsBracket program.instrs.toList (turns.map (Turn.new replacements)) := by
    rw [← h.items, List.forall₂_map_left_iff, List.forall₂_map_right_iff, List.forall₂_same]
    intro turn hturn
    exact keepsBracket_of_fair (h.fair turn hturn)
  have hbalanced : isBalanced (turns.map (Turn.new replacements)) = true := by
    rw [isBalanced, depthAfter?_of_keepsBracket hkeeps]
    exact program.isBalanced_instrs
  obtain ⟨new, hinstrs, hnew⟩ := exists_tapeOf (σ := σ) hbalanced
  -- no turn is refused
  have hstep : ∀ {turn : Turn Instr} {source rest : σ}, turn.Fair chance replacements → ¬ False →
      HandsOut source (turn.draws replacements) rest →
      mutateInstr chance turn.old source = (.ok (turn.new replacements), rest) :=
    fun hfair _ hdraws => mutateInstr_of_fair hfair hdraws
  refine ⟨new, bind_eq_ok.mpr ⟨_, rest, h.mapM_eq_ok hstep fun _ _ => id, hnew rest⟩, hinstrs, ?_⟩
  rw [hinstrs]
  exact hkeeps

/-- Programs with the same instructions are the same: the table of jumps is made from them. -/
theorem eq_of_instrs_eq {p q : Program} (h : p.instrs.toList = q.instrs.toList) : p = q := by
  have hp := p.ofInstrs_instrs
  rw [h, q.ofInstrs_instrs] at hp
  exact (Except.ok.inj hp).symm

/-- **A script for every program with the same skeleton.** -/
theorem exists_mutateTape_script {program new : Program}
    (h : List.Forall₂ KeepsBracket program.instrs.toList new.instrs.toList) :
    ∃ values : List Nat, mutateTape program 1.0 (⟨values, 0⟩ : Script) = (.ok new, ⟨[], values.length⟩) := by
  obtain ⟨values, turns, hledger, hnews⟩ := exists_ledger_script (h.imp fun _ _ => keepsBracket_iff.mp) 0
  obtain ⟨made, hmade, hinstrs, -⟩ := mutateTape_of_ledger hledger
  rw [hnews] at hinstrs
  rw [eq_of_instrs_eq hinstrs, Nat.zero_add] at hmade
  exact ⟨values, hmade⟩

end ProgramArt.Evolution
