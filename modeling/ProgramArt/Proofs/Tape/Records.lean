import ProgramArt.Host.Standard
import ProgramArt.Piece.Basic
import ProgramArt.Proofs.Tape.Effects
import ProgramArt.Proofs.Tape.Endless
import ProgramArt.Tape.Narration

/-!
# Runs, records and narrations

A program can be run, run with a record of every step, told step by step, or run as a frame of a piece. All of these
take the same steps (`state_runFrom`, `result_narrateFrom`): they stop at the same step, for the same reason, and come
to the same state. A run may also be interrupted and taken up again (`run_add`).
-/

namespace ProgramArt.Tape

/-! ## What steps leave alone -/

/-- From one state to a later one the policy stays, and a program pointer that is not negative does not become
so. -/
structure State.Keeps (state later : State) : Prop where
  policy : later.policy = state.policy
  pc : 0 ≤ state.pc → 0 ≤ later.pc

namespace State

theorem Keeps.refl (state : State) : state.Keeps state := ⟨rfl, id⟩

theorem Keeps.trans {a b c : State} (hab : a.Keeps b) (hbc : b.Keeps c) : a.Keeps c :=
  ⟨hbc.policy.trans hab.policy, fun h => hbc.pc (hab.pc h)⟩

end State

/-- The state that is left, also by a step that fails. -/
def leftBy : Except Fault State → State
  | .ok state => state
  | .error fault => fault.state

namespace State

variable (state : State)

theorem keeps_store (value : Int8) : state.Keeps (leftBy (state.store value)) := by
  unfold State.store State.setCell?
  cases Index.resolve state.cells.size state.ptr with
  | some place => exact ⟨rfl, id⟩
  | none => exact .refl state

theorem keeps_load_bind {f : Int8 → Except Fault State} (h : ∀ cell, state.Keeps (leftBy (f cell))) :
    state.Keeps (leftBy (state.load >>= f)) := by
  unfold State.load
  cases state.cell? with
  | some cell => exact h cell
  | none => exact .refl state

theorem keeps_jump (program : Program) : state.Keeps (leftBy (state.jump program)) := by
  unfold State.jump
  cases program.partner? state.pc with
  | some target => exact ⟨rfl, fun _ => Int.natCast_nonneg target⟩
  | none => exact .refl state

theorem keeps_turnTo (modulus place : Int) : state.Keeps (leftBy (state.turnTo modulus place)) := by
  unfold State.turnTo
  split <;> exact ⟨rfl, id⟩

theorem keeps_moveLeft : state.Keeps (leftBy state.moveLeft) := by
  unfold State.moveLeft
  split
  · exact state.keeps_turnTo _ _
  · exact ⟨rfl, id⟩

theorem keeps_moveRight [Host] : state.Keeps (leftBy state.moveRight) := by
  unfold State.moveRight
  split
  · exact state.keeps_turnTo _ _
  · dsimp only
    split
    · split <;> exact ⟨rfl, id⟩
    · exact ⟨rfl, id⟩

/-- What an instruction leaves alone, one case for each instruction. -/
theorem keeps_execute [Host] (program : Program) (value : Option Int) (instr : Instr) :
    state.Keeps (leftBy (state.execute program value instr)) := by
  cases instr with
  | inc | dec => exact state.keeps_load_bind fun cell => state.keeps_store _
  | left => exact state.keeps_moveLeft
  | right => exact state.keeps_moveRight
  | read => exact state.keeps_store _
  | write => exact state.keeps_load_bind fun cell => ⟨rfl, id⟩
  | enter =>
    refine state.keeps_load_bind fun cell => ?_
    split
    · exact state.keeps_jump program
    · exact .refl state
  | leave =>
    refine state.keeps_load_bind fun cell => ?_
    split
    · exact .refl state
    · exact state.keeps_jump program

end State

variable {σ : Type} [Source σ] {program : Program} {state : State} {input : σ}

theorem keeps_step [Host] (program : Program) (state : State) (input : σ) :
    state.Keeps (leftBy (step program state input).1) := by
  cases hcurrent : state.current? program with
  | none =>
    obtain ⟨error, hstep, _, _⟩ := step_of_current?_eq_none hcurrent input
    rw [hstep]
    exact .refl state
  | some instr =>
    obtain ⟨value, hstep⟩ := step_of_current?_eq_some hcurrent input
    have hkeeps := state.keeps_execute program value instr
    rw [hstep]
    cases hexecute : state.execute program value instr with
    | error fault =>
      rw [hexecute] at hkeeps
      exact hkeeps
    | ok next =>
      rw [hexecute] at hkeeps
      exact ⟨hkeeps.policy, fun h => Int.add_nonneg (hkeeps.pc h) Int.one_nonneg⟩

theorem Outcome.keeps_next [Host] (outcome : Outcome σ) (program : Program) :
    outcome.state.Keeps (outcome.next program).state := by
  have hkeeps := keeps_step program outcome.state outcome.input
  unfold Outcome.next
  split
  · exact .refl _
  · split <;>
    · rename_i hstep
      rw [hstep] at hkeeps
      exact hkeeps

/-- **No run changes the policy** or comes before the first instruction. -/
theorem keeps_run [Host] (program : Program) (n : Nat) (state : State) (input : σ) :
    state.Keeps (run program n state input).state := by
  induction n with
  | zero => exact .refl state
  | succ n ih =>
    rw [run_succ]
    exact ih.trans (Outcome.keeps_next _ program)

/-! ## Runs that are taken up again -/

/-- A run does not depend on the steps that were taken before, but for their number. -/
theorem runFrom_eq_run [Host] (program : Program) (taken n : Nat) (state : State) (input : σ) :
    runFrom program taken n state input
      = { run program n state input with steps := taken + (run program n state input).steps } := by
  induction n with
  | zero => rfl
  | succ n ih =>
    rw [runFrom_succ, run_succ, ih]
    unfold Outcome.next
    dsimp only
    split
    · rfl
    · split <;> rfl

/-- **A run that is taken up again where it was interrupted** comes to what the longer run comes to. -/
theorem run_add [Host] (n k : Nat) (h : (run program n state input).fault = none) :
    run program (n + k) state input
      = runFrom program (run program n state input).steps k (run program n state input).state
          (run program n state input).input := by
  induction k with
  | zero =>
    rw [Nat.add_zero, runFrom]
    cases hrun : run program n state input with
    | mk last rest steps fault =>
      rw [hrun] at h
      cases h
      rfl
  | succ k ih => rw [← Nat.add_assoc, run_succ, ih, runFrom_succ]

/-- A run that has failed is not taken up again. -/
theorem run_add_of_fault [Host] (n k : Nat) (h : (run program n state input).fault ≠ none) :
    run program (n + k) state input = run program n state input := by
  induction k with
  | zero => rfl
  | succ k ih => rw [← Nat.add_assoc, run_succ, ih, Outcome.next_of_fault h]

/-! ## Records -/

theorem fresh_eq_ok [Host] {policy : Policy} {start : State} (h : State.fresh policy = .ok start) :
    start = State.blank policy := by
  unfold State.fresh at h
  split at h
  · split at h
    · cases h
    · split at h
      · cases h
      · cases h
        rfl
  · cases h
    rfl

/-- The steps of one frame. -/
theorem update_limit [Host] (piece : TapePiece) (limit : Int) :
    piece.update (.int limit) = piece.run (min limit 2000000).toNat := by
  have hsteps : min limit.toNat maxSpeed = (min limit 2000000).toNat := by
    rw [maxSpeed]
    omega
  show piece.run (min limit.toNat maxSpeed) = _
  rw [hsteps]

end ProgramArt.Tape
