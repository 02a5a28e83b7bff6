import ProgramArt.Host.Standard
import ProgramArt.Tape.State

/-!
# What a step leaves alone

A machine can be put together in any way: its pointers may be anywhere, its cells may hold any numbers, its ring may
have no cells. A step from there fails for one of a few reasons, `State.FailsBy`, or executes one instruction. A step
that fails leaves everything as it was, but for a growing tape whose new cells cannot be had: the pointer is in front
of them already. A step that succeeds has an effect on one cell, on the end of the tape or on the output
(`State.Effect`). `executed_execute` says this of an instruction and `stepped_step` of a step.
-/

namespace ProgramArt.Tape

variable {α : Type}

/-! ## Failures -/

/-- The instruction looks at the cell under the pointer, or stores a value there. All but the moves do. -/
def Instr.usesCell : Instr → Bool
  | .left | .right => false
  | .inc | .dec | .enter | .leave | .read | .write => true

section Looks

variable {program : Program} {state : State α}

theorem cell?_eq_none_iff : state.cell? = none ↔ Index.resolve state.cells.size state.ptr = none := by
  rw [State.cell?, Option.map_eq_none_iff]

theorem current?_of_halted (h : state.halted program = true) : state.current? program = none := by
  rw [State.current?, if_pos h]

theorem current?_of_running (h : state.halted program = false) :
    state.current? program = program.get? state.pc := by
  rw [State.current?, h, if_neg Bool.false_ne_true]

theorem halted_of_current? {instr : Instr} (h : state.current? program = some instr) :
    state.halted program = false := by
  cases hhalted : state.halted program with
  | true =>
    rw [current?_of_halted hhalted] at h
    cases h
  | false => rfl

end Looks

/-- A failure leaves a state as it was. Only the pointer may have been moved, off a tape that cannot grow. -/
structure Fault.Spares (fault : Fault α) (state : State α) : Prop where
  pc : fault.state.pc = state.pc
  cells : fault.state.cells = state.cells
  policy : fault.state.policy = state.policy
  output : fault.state.output = state.output
  ptr : (∀ e, fault.error ≠ .room e) → fault.state.ptr = state.ptr
  ptr_room : ∀ e, fault.error = .room e → fault.state.ptr = state.ptr + 1

theorem Fault.spares_self {error : StepError} (state : State α) (h : ∀ e, error ≠ .room e) :
    Fault.Spares ⟨error, state⟩ state :=
  ⟨rfl, rfl, rfl, rfl, fun _ => rfl, fun e he => absurd he (h e)⟩

variable [Cell α]

/-- An instruction that is a bracket and sends the machine to its partner: `[` at zero, or `]` at anything
else. -/
def State.TakesJump (state : State α) (instr : Instr) : Prop :=
  ∃ value, state.cell? = some value
    ∧ (instr = .enter ∧ value = Cell.zero ∨ instr = .leave ∧ value ≠ Cell.zero)

/-- Why an instruction fails. -/
inductive State.FailsAt [Host] (program : Program) (state : State α) (instr : Instr) : StepError → Prop where
  /-- It needs a cell, and the pointer names none. -/
  | missingCell : instr.usesCell = true → state.cell? = none → FailsAt program state instr .missingCell
  /-- It is a bracket that has to go to its partner, and there is no partner. -/
  | missingJump : state.TakesJump instr → program.partner? state.pc = none →
      FailsAt program state instr (.missingJump state.pc)
  /-- It is a move around a ring without cells. -/
  | emptyRing : instr.usesCell = false → state.policy = .ring 0 → FailsAt program state instr .emptyRing
  /-- It is a move off a growing tape, and the new cells cannot be had. -/
  | room {chunk : Int} {e : RoomError} : instr = .right → state.policy = .grow chunk →
      (state.cells.size : Int) ≤ state.ptr + 1 → cellCount chunk = .error e →
      FailsAt program state instr (.room e)

/-- Why a step fails. -/
inductive State.FailsBy [Host] (program : Program) (state : State α) : StepError → Prop where
  /-- The machine has halted. -/
  | halted : state.halted program = true → FailsBy program state .halted
  /-- There is no instruction at the program pointer. -/
  | missingInstr : state.halted program = false → program.get? state.pc = none →
      FailsBy program state .missingInstr
  /-- The instruction there fails. -/
  | executing {instr : Instr} {error : StepError} : state.current? program = some instr →
      state.FailsAt program instr error → FailsBy program state error

/-- Reading fails only for want of a cell. -/
theorem State.FailsBy.error_of_read [Host] {program : Program} {state : State α} {error : StepError}
    (h : state.FailsBy program error) (hread : state.current? program = some .read) :
    error = .missingCell := by
  cases h with
  | halted hhalted =>
    rw [current?_of_halted hhalted] at hread
    cases hread
  | missingInstr hrunning hget =>
    rw [current?_of_running hrunning, hget] at hread
    cases hread
  | executing hcurrent hfails =>
    rw [hread] at hcurrent
    cases hcurrent
    cases hfails with
    | missingCell _ _ => rfl
    | missingJump htakes _ =>
      obtain ⟨_, _, ⟨hinstr, _⟩ | ⟨hinstr, _⟩⟩ := htakes <;> cases hinstr
    | emptyRing huses _ => cases huses
    | room hinstr _ _ _ => cases hinstr

/-! ## Effects -/

/-- What an instruction may change: at most one of the cells, the length of the tape by zeros if it is `>`, and
the output by at most one value. -/
structure State.Effect (state : State α) (instr : Instr) (next : State α) : Prop where
  policy : next.policy = state.policy
  cells : ∃ place, ∀ i < state.cells.size, i ≠ place → next.cells[i]? = state.cells[i]?
  grown : ∃ count, next.cells.size = state.cells.size + count
    ∧ (∀ i, state.cells.size ≤ i → i < next.cells.size → next.cells[i]? = some Cell.zero)
    ∧ (0 < count → instr = .right)
  output : next.output = state.output ∨ ∃ value, next.output = state.output.push value

/-- An instruction that leaves the tape alone. -/
theorem State.Effect.of_cells_eq {state next : State α} (instr : Instr) (hpolicy : next.policy = state.policy)
    (hcells : next.cells = state.cells)
    (houtput : next.output = state.output ∨ ∃ value, next.output = state.output.push value) :
    state.Effect instr next := by
  refine ⟨hpolicy, ⟨0, ?_⟩, ⟨0, ?_, ?_, ?_⟩, houtput⟩
  · intro i _ _
    rw [hcells]
  · rw [hcells, Nat.add_zero]
  · intro i hle hlt
    rw [hcells] at hlt
    omega
  · intro h
    exact absurd h (Nat.lt_irrefl 0)

theorem State.effect_set {state : State α} (instr : Instr) (i : Fin state.cells.size) (value : α) :
    state.Effect instr { state with cells := state.cells.set i value i.isLt } := by
  refine ⟨rfl, ⟨i, ?_⟩, ⟨0, ?_, ?_, ?_⟩, .inl rfl⟩
  · intro j _ hne
    exact Array.getElem?_set_ne i.isLt (Ne.symm hne)
  · exact Array.size_set i.isLt
  · intro j hle hlt
    rw [Array.size_set] at hlt
    omega
  · intro h
    exact absurd h (Nat.lt_irrefl 0)

/-- A move to the right onto new cells. -/
theorem State.effect_extend (state : State α) (ptr : Int) (count : Nat) :
    state.Effect .right (State.extend { state with ptr } count) := by
  refine ⟨rfl, ⟨state.cells.size, ?_⟩, ⟨count, ?_, ?_, fun _ => rfl⟩, .inl rfl⟩
  · intro i hlt _
    exact Array.getElem?_append_left hlt
  · rw [State.extend, Array.size_append, Array.size_replicate]
  · intro i hle hlt
    have hsize : (State.extend { state with ptr } count).cells.size = state.cells.size + count := by
      rw [State.extend, Array.size_append, Array.size_replicate]
    rw [hsize] at hlt
    have hnew : i - state.cells.size < count := by omega
    rw [State.extend, Array.getElem?_append_right hle, Array.getElem?_replicate]
    exact if_pos hnew

/-! ## Instructions -/

/-- How an instruction ends: it has its effect, or it fails for a reason and leaves the state alone. -/
inductive Executed [Host] (program : Program) (state : State α) (instr : Instr) :
    Except (Fault α) (State α) → Prop where
  | ok {next : State α} : state.Effect instr next → Executed program state instr (.ok next)
  | error {fault : Fault α} : state.FailsAt program instr fault.error → fault.Spares state →
      Executed program state instr (.error fault)

section Instructions

variable {program : Program} {state : State α} {instr : Instr}

theorem executed_self [Host] : Executed program state instr (.ok state) :=
  .ok (.of_cells_eq instr rfl rfl (.inl rfl))

theorem executed_missingCell [Host] (huses : instr.usesCell = true) (hcell : state.cell? = none) :
    Executed program state instr (.error ⟨.missingCell, state⟩) :=
  .error (.missingCell huses hcell) (Fault.spares_self state (fun _ => StepError.noConfusion))

theorem executed_store [Host] (huses : instr.usesCell = true) (value : α) :
    Executed program state instr (state.store value) := by
  unfold State.store State.setCell?
  cases hplace : Index.resolve state.cells.size state.ptr with
  | some i => exact .ok (State.effect_set instr i value)
  | none => exact executed_missingCell huses (cell?_eq_none_iff.mpr hplace)

theorem executed_load_bind [Host] (huses : instr.usesCell = true) {f : α → Except (Fault α) (State α)}
    (h : ∀ value, state.cell? = some value → Executed program state instr (f value)) :
    Executed program state instr (state.load >>= f) := by
  unfold State.load
  cases hcell : state.cell? with
  | some value => exact h value hcell
  | none => exact executed_missingCell huses hcell

theorem executed_jump [Host] (htakes : state.TakesJump instr) : Executed program state instr (state.jump program) := by
  unfold State.jump
  cases hpartner : program.partner? state.pc with
  | some target => exact .ok (.of_cells_eq instr rfl rfl (.inl rfl))
  | none =>
    exact .error (.missingJump htakes hpartner) (Fault.spares_self state (fun _ => StepError.noConfusion))

theorem executed_turnTo [Host] {modulus : Int} (huses : instr.usesCell = false) (hpolicy : state.policy = .ring modulus)
    (place : Int) : Executed program state instr (state.turnTo modulus place) := by
  unfold State.turnTo
  split
  · rename_i hzero
    subst hzero
    exact .error (.emptyRing huses hpolicy) (Fault.spares_self state (fun _ => StepError.noConfusion))
  · exact .ok (.of_cells_eq instr rfl rfl (.inl rfl))

theorem executed_moveLeft [Host] : Executed program state .left state.moveLeft := by
  cases hpolicy : state.policy with
  | ring modulus =>
    have hmove : state.moveLeft = state.turnTo modulus (state.ptr - 1) := by rw [State.moveLeft, hpolicy]
    rw [hmove]
    exact executed_turnTo rfl hpolicy _
  | grow chunk =>
    have hmove : state.moveLeft = .ok { state with ptr := max 0 (state.ptr - 1) } := by
      simp only [State.moveLeft, hpolicy]
    rw [hmove]
    exact .ok (.of_cells_eq .left rfl rfl (.inl rfl))

/-- Off a growing tape there are new cells, or they cannot be had and the pointer is where they should be. -/
theorem executed_moveRight [Host] : Executed program state .right state.moveRight := by
  cases hpolicy : state.policy with
  | ring modulus =>
    have hmove : state.moveRight = state.turnTo modulus (state.ptr + 1) := by rw [State.moveRight, hpolicy]
    rw [hmove]
    exact executed_turnTo rfl hpolicy _
  | grow chunk =>
    by_cases hend : (state.cells.size : Int) ≤ state.ptr + 1
    · cases hcount : cellCount chunk with
      | ok count =>
        have hmove : state.moveRight = .ok (State.extend { state with ptr := state.ptr + 1 } count) := by
          simp only [State.moveRight, hpolicy, hend, if_true, hcount]
        rw [hmove]
        exact .ok (state.effect_extend _ count)
      | error e =>
        have hmove : state.moveRight = .error ⟨.room e, { state with ptr := state.ptr + 1 }⟩ := by
          simp only [State.moveRight, hpolicy, hend, if_true, hcount]
        rw [hmove]
        refine .error (.room rfl hpolicy hend hcount) ⟨rfl, rfl, rfl, rfl, ?_, fun _ _ => rfl⟩
        intro h
        exact absurd rfl (h e)
    · have hmove : state.moveRight = .ok { state with ptr := state.ptr + 1 } := by
        simp only [State.moveRight, hpolicy, hend, if_false]
      rw [hmove]
      exact .ok (.of_cells_eq .right rfl rfl (.inl rfl))

variable [DecidableEq α]

/-- **An instruction fails for a reason, or has its effect,** one case for each instruction. -/
theorem executed_execute [Host] (program : Program) (state : State α) (value : Option Int) (instr : Instr) :
    Executed program state instr (state.execute program value instr) := by
  cases instr with
  | inc | dec => exact executed_load_bind rfl fun cell _ => executed_store rfl _
  | left => exact executed_moveLeft
  | right => exact executed_moveRight
  | read => exact executed_store rfl _
  | write =>
    refine executed_load_bind rfl fun cell _ => ?_
    exact .ok (.of_cells_eq .write rfl rfl (.inr ⟨cell, rfl⟩))
  | enter =>
    refine executed_load_bind rfl fun cell hcell => ?_
    split
    · rename_i hzero
      exact executed_jump ⟨cell, hcell, .inl ⟨rfl, hzero⟩⟩
    · exact executed_self
  | leave =>
    refine executed_load_bind rfl fun cell hcell => ?_
    split
    · exact executed_self
    · rename_i hnonzero
      exact executed_jump ⟨cell, hcell, .inr ⟨rfl, hnonzero⟩⟩

/-- An instruction fails if there is a reason for it. -/
theorem execute_of_failsAt [Host] {error : StepError} (h : state.FailsAt program instr error) (value : Option Int) :
    ∃ left, state.execute program value instr = .error ⟨error, left⟩ := by
  cases h with
  | missingCell huses hcell =>
    have hload : state.load = .error ⟨.missingCell, state⟩ := by rw [State.load, hcell]
    have hstore (value : α) : state.store value = .error ⟨.missingCell, state⟩ := by
      rw [State.store, State.setCell?, cell?_eq_none_iff.mp hcell]
    refine ⟨state, ?_⟩
    cases instr with
    | left | right => cases huses
    | read => exact hstore _
    | inc | dec | enter | leave | write =>
      rw [State.execute, hload]
      rfl
  | missingJump htakes hpartner =>
    obtain ⟨cell, hcell, hbracket⟩ := htakes
    have hload : state.load = .ok cell := by rw [State.load, hcell]
    have hjump : state.jump program = .error ⟨.missingJump state.pc, state⟩ := by rw [State.jump, hpartner]
    refine ⟨state, ?_⟩
    rcases hbracket with ⟨rfl, hzero⟩ | ⟨rfl, hnonzero⟩
    · simp only [State.execute, hload, bind, Except.bind, if_pos hzero, hjump]
    · simp only [State.execute, hload, bind, Except.bind, if_neg hnonzero, hjump]
  | emptyRing huses hpolicy =>
    refine ⟨state, ?_⟩
    cases instr with
    | left => simp only [State.execute, State.moveLeft, hpolicy, State.turnTo, if_true]
    | right => simp only [State.execute, State.moveRight, hpolicy, State.turnTo, if_true]
    | inc | dec | enter | leave | read | write => cases huses
  -- the pointer has moved by the time that room is asked for
  | room hinstr hpolicy hend hcount =>
    subst hinstr
    refine ⟨{ state with ptr := state.ptr + 1 }, ?_⟩
    simp only [State.execute, State.moveRight, hpolicy, hend, if_true, hcount]

end Instructions

/-! ## Steps -/

variable [DecidableEq α] {σ : Type} [Source σ]

/-- A source that is dry is left as it is when it is asked. -/
def Source.Settles (σ : Type) [Source σ] : Prop :=
  ∀ source : σ, (Source.next source).1 = none → (Source.next source).2 = source

theorem Input.settles : Source.Settles Input := by
  rintro ⟨_ | ⟨value, pending⟩, _ | ⟨again, cycled⟩⟩ h
  · rfl
  all_goals cases h

/-- The input after a step from a state: only `,` takes a value. -/
def State.inputAfter (program : Program) (state : State α) (input : σ) : σ :=
  if state.current? program = some .read then (Source.next input).2 else input

/-- How a step ends: the instruction at the program pointer has its effect, or the step fails for a reason and
leaves the state alone. -/
inductive Stepped [Host] (program : Program) (state : State α) : Except (Fault α) (State α) → Prop where
  | ok {instr : Instr} {next : State α} : state.current? program = some instr → state.Effect instr next →
      Stepped program state (.ok next)
  | error {fault : Fault α} : state.FailsBy program fault.error → fault.Spares state →
      Stepped program state (.error fault)

section Steps

variable {program : Program} {state : State α}

/-- A step executes the instruction at the program pointer and moves on. -/
theorem step_of_current?_eq_some [Host] {instr : Instr} (h : state.current? program = some instr) (input : σ) :
    ∃ value, step program state input
      = ((state.execute program value instr).map State.advance, state.inputAfter program input) := by
  have hrunning := halted_of_current? h
  have hget : program.get? state.pc = some instr := by
    rw [← current?_of_running hrunning]
    exact h
  rw [step, hrunning, if_neg Bool.false_ne_true, hget, State.inputAfter, h]
  cases instr with
  | read => exact ⟨_, rfl⟩
  | inc | dec | left | right | enter | leave | write => exact ⟨none, rfl⟩

/-- Without an instruction a step fails and leaves everything alone. -/
theorem step_of_current?_eq_none [Host] (h : state.current? program = none) (input : σ) :
    ∃ error, step program state input = (.error ⟨error, state⟩, input) ∧ state.FailsBy program error
      ∧ error = if state.halted program = true then .halted else .missingInstr := by
  by_cases hhalted : state.halted program = true
  · exact ⟨.halted, by rw [step, if_pos hhalted], .halted hhalted, by rw [if_pos hhalted]⟩
  · have hrunning : state.halted program = false := Bool.not_eq_true _ |>.mp hhalted
    rw [current?_of_running hrunning] at h
    refine ⟨.missingInstr, ?_, .missingInstr hrunning h, by rw [if_neg hhalted]⟩
    rw [step, if_neg hhalted, h]

theorem input_of_step [Host] (input : σ) : (step program state input).2 = state.inputAfter program input := by
  cases hcurrent : state.current? program with
  | none =>
    obtain ⟨error, hstep, _, _⟩ := step_of_current?_eq_none hcurrent input
    have hnot : state.current? program ≠ some .read := by
      intro hread
      rw [hcurrent] at hread
      cases hread
    rw [hstep, State.inputAfter, if_neg hnot]
  | some instr =>
    obtain ⟨value, hstep⟩ := step_of_current?_eq_some hcurrent input
    rw [hstep]

/-- **A step ends like the instruction that it executes,** and without an instruction it fails. -/
theorem stepped_step [Host] (program : Program) (state : State α) (input : σ) :
    Stepped program state (step program state input).1 := by
  cases hcurrent : state.current? program with
  | none =>
    obtain ⟨error, hstep, hfails, herror⟩ := step_of_current?_eq_none hcurrent input
    rw [hstep]
    refine .error hfails (Fault.spares_self state fun e he => ?_)
    rw [he] at herror
    split at herror <;> cases herror
  | some instr =>
    obtain ⟨value, hstep⟩ := step_of_current?_eq_some hcurrent input
    have hexecuted := executed_execute program state value instr
    rw [hstep]
    dsimp only
    generalize state.execute program value instr = result at hexecuted
    cases hexecuted with
    | ok heffect => exact .ok hcurrent ⟨heffect.policy, heffect.cells, heffect.grown, heffect.output⟩
    | error hfails hspares => exact .error (.executing hcurrent hfails) hspares

/-- A step that fails has a reason, and spares the machine. -/
theorem spares_of_step [Host] {fault : Fault α} {input rest : σ} (h : step program state input = (.error fault, rest)) :
    state.FailsBy program fault.error ∧ fault.Spares state := by
  have hstepped := stepped_step program state input
  rw [h] at hstepped
  cases hstepped with
  | error hfails hspares => exact ⟨hfails, hspares⟩

/-- A step that succeeds has the effect of the instruction at the program pointer. -/
theorem effect_of_step [Host] {next : State α} {input rest : σ} (h : step program state input = (.ok next, rest)) :
    ∃ instr, state.current? program = some instr ∧ state.Effect instr next := by
  have hstepped := stepped_step program state input
  rw [h] at hstepped
  cases hstepped with
  | ok hcurrent heffect => exact ⟨_, hcurrent, heffect⟩

theorem exists_step_eq_error_iff [Host] (input : σ) (error : StepError) :
    (∃ left rest, step program state input = (.error ⟨error, left⟩, rest)) ↔ state.FailsBy program error := by
  constructor
  · rintro ⟨left, rest, h⟩
    exact (spares_of_step h).1
  · intro h
    cases h with
    | halted hhalted => exact ⟨state, input, by rw [step, if_pos hhalted]⟩
    | missingInstr hrunning hget =>
      exact ⟨state, input, by rw [step, hrunning, if_neg Bool.false_ne_true, hget]⟩
    | executing hcurrent hfails =>
      obtain ⟨value, hstep⟩ := step_of_current?_eq_some hcurrent input
      obtain ⟨left, hexecute⟩ := execute_of_failsAt hfails value
      rw [hexecute] at hstep
      exact ⟨left, _, hstep⟩

end Steps

/-- **A step spares the machine, or acts on it.** It fails exactly if there is a reason for it, and then everything
is as before, but for a pointer that has been moved off a tape which cannot grow. If it does not fail, it has no more
than the effect of one instruction. In both cases only `,` takes a value from the input, also for a missing cell, and
an input that is dry stays as it is. -/
theorem step_spares_or_acts [Host] (program : Program) (state : State α) (input : σ) :
    (∀ error, (∃ left rest, step program state input = (.error ⟨error, left⟩, rest))
      ↔ state.FailsBy program error)
    ∧ (∀ fault rest, step program state input = (.error fault, rest) →
      fault.Spares state ∧ (state.current? program = some .read → fault.error = .missingCell))
    ∧ (∀ next rest, step program state input = (.ok next, rest) →
      ∃ instr, state.current? program = some instr ∧ state.Effect instr next)
    ∧ (step program state input).2 = state.inputAfter program input
    ∧ (Source.Settles σ → (Source.next input).1 = none → (step program state input).2 = input) := by
  refine ⟨exists_step_eq_error_iff input, ?_, ?_, input_of_step input, ?_⟩
  · intro fault rest h
    obtain ⟨hfails, hspares⟩ := spares_of_step h
    exact ⟨hspares, hfails.error_of_read⟩
  · intro next rest h
    exact effect_of_step h
  · intro hsettles hdry
    rw [input_of_step, State.inputAfter]
    split
    · exact hsettles input hdry
    · rfl

/-- A program that moves to the right and reads. -/
def rightRead : Program := ⟨#[.right, .read], #[none, none], rfl⟩

/-- About to read behind the only cell of a tape that does not grow. The cell holds a number that is no byte. -/
def besideTape : State Int := { pc := 1, ptr := 1, cells := #[1000], policy := .grow (-5), output := #[7] }

open scoped Host in
/-- Beside the tape a value is taken and lost, if there is one; at the last cell, counted from the end, it is
stored. -/
theorem step_spares_or_acts_reading :
    (∃ fault, step rightRead besideTape (Input.ofValues [300, 5]) = (.error fault, Input.ofValues [5])
      ∧ fault.error = .missingCell ∧ fault.Spares besideTape)
    ∧ (Source.Settles Input ∧ (step rightRead besideTape Input.empty).2 = Input.empty)
    ∧ ∃ next, step rightRead { besideTape with ptr := -1 } (Input.ofValues [300, 5]) = (.ok next, Input.ofValues [5])
      ∧ next.cells = #[44] ∧ State.Effect { besideTape with ptr := -1 } .read next := by
  refine ⟨?_, ⟨Input.settles, ?_⟩, ?_⟩
  · have hstep : step rightRead besideTape (Input.ofValues [300, 5])
        = (.error ⟨.missingCell, besideTape⟩, Input.ofValues [5]) := rfl
    obtain ⟨_, hspares, _, _, _⟩ := step_spares_or_acts rightRead besideTape (Input.ofValues [300, 5])
    exact ⟨_, hstep, rfl, (hspares _ _ hstep).1⟩
  · obtain ⟨_, _, _, _, hdry⟩ := step_spares_or_acts rightRead besideTape Input.empty
    exact hdry Input.settles rfl
  · have hstep : step rightRead { besideTape with ptr := -1 } (Input.ofValues [300, 5])
        = (.ok { besideTape with pc := 2, ptr := -1, cells := #[44] }, Input.ofValues [5]) := rfl
    obtain ⟨_, _, hacts, _, _⟩ :=
      step_spares_or_acts rightRead { besideTape with ptr := -1 } (Input.ofValues [300, 5])
    obtain ⟨instr, hcurrent, heffect⟩ := hacts _ _ hstep
    cases hcurrent
    exact ⟨_, hstep, rfl, heffect⟩

/-- At the end of a tape whose new cells cannot be counted. -/
def atUncountable : State := { State.blank (.grow (-9223372036854775809)) with ptr := 255 }

open scoped Host in
/-- A move off such a tape fails, and yet the pointer has been moved. -/
theorem step_uncountable_moves_ptr :
    ∃ fault rest, step rightRead atUncountable Input.empty = (.error fault, rest)
      ∧ fault.error = .room .uncountable ∧ fault.state.ptr ≠ atUncountable.ptr := by
  have hsize : atUncountable.cells.size = 256 := Array.size_replicate
  have hend : (atUncountable.cells.size : Int) ≤ atUncountable.ptr + 1 := by
    rw [hsize]
    decide
  have hfails : atUncountable.FailsBy rightRead (.room .uncountable) :=
    .executing (show _ = some Instr.right from rfl) (.room rfl rfl hend rfl)
  obtain ⟨left, rest, hstep⟩ := (exists_step_eq_error_iff Input.empty _).mpr hfails
  refine ⟨_, rest, hstep, rfl, ?_⟩
  rw [(spares_of_step hstep).2.ptr_room _ rfl]
  decide

end ProgramArt.Tape
