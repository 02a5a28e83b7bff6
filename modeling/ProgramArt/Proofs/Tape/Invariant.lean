import ProgramArt.Host.Standard
import ProgramArt.Proofs.Tape.Machine

/-!
# What every run of the tape machine keeps

From a fresh tape on, both pointers stay in range, a ring keeps its size, the tape is never shortened and no output is
taken back, however many steps are taken (`steps_inTape`). So the only step that can fail before the machine halts is
one that finds no room for new cells. Cells that are whole numbers stay signed bytes, since everything that is stored
in them is wrapped: a machine on whole numbers is the one on signed bytes, seen through `State.toInts`.
-/

namespace ProgramArt.Tape

section

variable {σ : Type} [Source σ] {program : Program} {policy : Policy} {store : Store σ} {pc : Nat}

/-- **One step.** Before the end of the program a step leads to a place of the program with the pointer
still in the tape, or finds no room for new cells. -/
theorem step_inTape [Host] (hpos : policy.Positive) (hin : store.InTape policy) (hpc : pc < program.size) :
    (∃ next pc', pc' ≤ program.size ∧ next.InTape policy ∧ store.Extends next
      ∧ step program (store.place policy pc).1 (store.place policy pc).2
        = (.ok (next.place policy pc').1, next.input))
    ∨ ∃ chunk e fault, policy = .grow chunk ∧ cellCount chunk = .error e ∧ fault.error = .room e
      ∧ step program (store.place policy pc).1 (store.place policy pc).2
        = (.error fault, store.input) := by
  obtain ⟨instr, hget⟩ : ∃ instr, program.instrs.toList[pc]? = some instr :=
    ⟨_, List.getElem?_eq_getElem hpc⟩
  obtain rfl | rfl | ⟨action, rfl⟩ := instr.kinds
  · obtain ⟨target, hjump, hlt⟩ := Program.exists_partner hget rfl
    refine .inl ⟨store, _, ?_, hin, .refl store, step_enter hget hin hjump⟩
    split <;> omega
  · obtain ⟨target, hjump, hlt⟩ := Program.exists_partner hget rfl
    refine .inl ⟨store, _, ?_, hin, .refl store, step_leave hget hin hjump⟩
    split <;> omega
  · cases hact : action.apply policy store with
    | ok next =>
        obtain ⟨hin', hext⟩ := hin.apply hpos hact
        exact .inl ⟨next, pc + 1, hpc, hin', hext, step_act hget hin hact⟩
    | error e =>
        obtain ⟨chunk, hgrow, hcount⟩ := Store.policy_of_apply_error hact
        exact .inr ⟨chunk, e, _, hgrow, hcount, rfl, step_act_room hget hact⟩

/-- **Any number of steps.** Induction on the number of steps: each leads to a place of the program again,
and a machine at the end of its program takes none. -/
theorem steps_inTape [Host] (hpos : policy.Positive) {n : Nat} {final : State × σ} (hin : store.InTape policy)
    (hpc : pc ≤ program.size) (hrun : steps program n (store.place policy pc) = some final) :
    ∃ next pc', final = next.place policy pc' ∧ pc' ≤ program.size ∧ next.InTape policy
      ∧ store.Extends next := by
  induction n generalizing store pc with
  | zero =>
      injection hrun with hrun
      exact ⟨store, pc, hrun.symm, hpc, hin, .refl store⟩
  | succ n ih =>
      rcases Nat.lt_or_eq_of_le hpc with hlt | rfl
      · obtain ⟨next, pc', hpc', hin', hext, hstep⟩ | ⟨_, _, fault, _, _, _, hstep⟩ :=
          step_inTape hpos hin hlt
        · rw [steps_succ_of_step hstep] at hrun
          obtain ⟨last, pc'', hfinal, hpc'', hin'', hext'⟩ := ih hin' hpc' hrun
          exact ⟨last, pc'', hfinal, hpc'', hin'', hext.trans hext'⟩
        · rw [steps_succ_of_fault hstep] at hrun
          exact absurd hrun (by simp)
      · rw [steps_succ_of_fault (step_halted (Store.halted_place_size policy store program))] at hrun
        exact absurd hrun (by simp)

/-! ## Runs from a fresh tape -/

/-- A policy that can have a tape starts with a blank one, if there is room for it. -/
theorem fresh_eq_blank [Host] {α : Type} [Cell α] (hpos : policy.Positive) :
    State.fresh policy = .ok (State.blank policy : State α)
      ∨ ∃ modulus e, policy = .ring modulus ∧ cellCount modulus = .error e
        ∧ (State.fresh policy : Except StartError (State α)) = .error (.room e) := by
  cases policy with
  | grow chunk => exact .inl rfl
  | ring modulus =>
      have hnot : ¬ modulus ≤ 0 := Int.not_le.mpr hpos
      cases hcount : cellCount modulus with
      | ok count => exact .inl (by simp [State.fresh, hnot, hcount])
      | error e => exact .inr ⟨modulus, e, rfl, hcount, by simp [State.fresh, hnot, hcount]⟩

/-- A blank tape is sound. -/
theorem sound_blank (hpos : policy.Positive) : (State.blank policy).Sound := by
  refine ⟨hpos, Int.le_refl 0, ?_, ?_⟩
  · cases policy with
    | ring modulus =>
        simp only [State.blank, State.freshSize, Array.size_replicate]
        have hmod : 1 ≤ modulus := hpos
        omega
    | grow chunk => simp [State.blank, State.freshSize, initialCells]
  · rintro modulus hring
    change policy = .ring modulus at hring
    subst hring
    simp only [State.blank, State.freshSize, Array.size_replicate]
    have hmod : 1 ≤ modulus := hpos
    omega

/-- **What holds after every number of steps on signed bytes from a fresh tape:** the machine is at a place of the
program, with its pointer in the tape. -/
theorem exists_place_of_steps_blank [Host] (hpos : policy.Positive) {input : σ} {n : Nat} {machine : State × σ}
    (hrun : steps program n (State.blank policy, input) = some machine) :
    ∃ (store : Store σ) (pc : Nat), machine = store.place policy pc ∧ pc ≤ program.size ∧ store.InTape policy := by
  have hstart : (Store.ofState (State.blank policy) input).place policy 0 = (State.blank policy, input) :=
    Store.place_ofState rfl (Int.le_refl 0) input
  rw [← hstart] at hrun
  obtain ⟨store, pc, hplace, hpc, hin, _⟩ :=
    steps_inTape hpos (Store.inTape_ofState (sound_blank hpos) input) (Nat.zero_le _) hrun
  exact ⟨store, pc, hplace, hpc, hin⟩

/-! ## Whole numbers -/

/-- Places are told by their numbers alone. -/
theorem resolve_val_congr {m n : Nat} (h : m = n) (i : Int) :
    (Index.resolve m i).map Fin.val = (Index.resolve n i).map Fin.val := by
  subst h
  rfl

theorem toInt_ofInt_int8 (n : Int) : (Cell.ofInt n : Int8).toInt = (Cell.ofInt n : Int) := by
  show (Int8.ofInt (wrapCell n)).toInt = wrapCell n
  rw [Int8.toInt_ofInt, wrapCell_eq_bmod, Int.bmod_bmod]

namespace State

variable {α : Type}

theorem cell?_eq_bind (state : State α) :
    state.cell? = ((Index.resolve state.cells.size state.ptr).map Fin.val).bind (state.cells[·]?) := by
  rw [cell?]
  cases Index.resolve state.cells.size state.ptr with
  | none => rfl
  | some place => exact (Array.getElem?_eq_getElem place.isLt).symm

theorem setCell?_eq_map (state : State α) (value : α) :
    state.setCell? value = ((Index.resolve state.cells.size state.ptr).map Fin.val).map fun place =>
      { state with cells := state.cells.setIfInBounds place value } := by
  rw [setCell?]
  cases Index.resolve state.cells.size state.ptr with
  | none => rfl
  | some place => simp [Array.setIfInBounds]

/-- The machine that holds the numbers of signed bytes. -/
def toInts (state : State) : State Int :=
  ⟨state.pc, state.ptr, state.cells.map Int8.toInt, state.policy, state.output.map Int8.toInt⟩

theorem cell?_toInts (state : State) : state.toInts.cell? = state.cell?.map Int8.toInt := by
  rw [cell?_eq_bind, cell?_eq_bind, toInts, resolve_val_congr Array.size_map]
  cases Index.resolve state.cells.size state.ptr with
  | none => rfl
  | some place => simp

/-- `State.toInts` goes along with what is loaded. -/
theorem load_toInts (state : State) :
    state.toInts.load = match state.load with
      | .ok value => .ok value.toInt
      | .error fault => .error ⟨fault.error, fault.state.toInts⟩ := by
  rw [load, load, cell?_toInts]
  cases state.cell? <;> rfl

/-- `State.toInts` goes along with what is stored. -/
theorem store_toInts (state : State) (value : Int8) :
    state.toInts.store value.toInt = mapResult toInts (state.store value) := by
  rw [store, store, setCell?_eq_map, setCell?_eq_map, show state.toInts.ptr = state.ptr from rfl,
    resolve_val_congr (show state.toInts.cells.size = state.cells.size from Array.size_map)]
  cases Index.resolve state.cells.size state.ptr with
  | none => rfl
  | some place => simp [mapResult, toInts]

theorem moveLeft_toInts (state : State) : state.toInts.moveLeft = mapResult toInts state.moveLeft := by
  rw [moveLeft, moveLeft, show state.toInts.policy = state.policy from rfl]
  split
  · rw [turnTo, turnTo]
    split <;> rfl
  · rfl

/-- `State.toInts` goes along with moves, and with their lack of room. -/
theorem moveRight_toInts [Host] (state : State) : state.toInts.moveRight = mapResult toInts state.moveRight := by
  rw [moveRight, moveRight, show state.toInts.policy = state.policy from rfl]
  split
  · rw [turnTo, turnTo]
    split <;> rfl
  · simp only [show state.toInts.ptr = state.ptr from rfl,
      show state.toInts.cells.size = state.cells.size from Array.size_map]
    split
    · cases cellCount _ with
      | error e => rfl
      | ok count => simp [mapResult, toInts, extend]; rfl
    · rfl

theorem jump_toInts (state : State) (program : Program) :
    state.toInts.jump program = mapResult toInts (state.jump program) := by
  rw [jump, jump, show state.toInts.pc = state.pc from rfl]
  split <;> rfl

/-- **Signed bytes are as good as whole numbers:** what an instruction does to them is the same. -/
theorem execute_toInts [Host] (state : State) (program : Program) (value : Option Int) (instr : Instr) :
    state.toInts.execute program value instr = mapResult toInts (state.execute program value instr) := by
  -- the brackets ask only whether a cell is zero
  have hzero (cell : Int8) : (cell.toInt = (Cell.zero : Int)) = (cell = Cell.zero) :=
    propext (Int8.toInt_inj (y := 0))
  cases instr with
  | inc | dec =>
      simp only [execute, load_toInts]
      cases state.load with
      | error fault => rfl
      | ok cell => exact (toInt_ofInt_int8 _ ▸ store_toInts state _ :)
  | left => exact moveLeft_toInts state
  | right => exact moveRight_toInts state
  | enter =>
      simp only [execute, load_toInts]
      cases state.load with
      | error fault => rfl
      | ok cell =>
          simp only [bind, Except.bind, hzero]
          split
          · exact jump_toInts state program
          · rfl
  | leave =>
      simp only [execute, load_toInts]
      cases state.load with
      | error fault => rfl
      | ok cell =>
          simp only [bind, Except.bind, hzero]
          split
          · rfl
          · exact jump_toInts state program
  | read =>
      rw [execute, execute, ← toInt_ofInt_int8]
      exact store_toInts state _
  | write =>
      simp only [execute, load_toInts]
      cases state.load with
      | error fault => rfl
      | ok cell => simp [mapResult, toInts, bind, Except.bind]

theorem blank_toInts (policy : Policy) : (blank policy).toInts = blank policy := by
  simp [toInts, blank, Cell.zero]

/-- Seen as whole numbers, signed bytes are from -128 to 127. -/
theorem mem_range_toInts {state : State} {value : Int} (h : value ∈ state.toInts.cells ∨ value ∈ state.toInts.output) :
    -128 ≤ value ∧ value ≤ 127 := by
  obtain ⟨byte, rfl⟩ : ∃ byte : Int8, byte.toInt = value := by
    rcases h with h | h
    · obtain ⟨byte, -, hbyte⟩ := Array.mem_map.mp h
      exact ⟨byte, hbyte⟩
    · obtain ⟨byte, -, hbyte⟩ := Array.mem_map.mp h
      exact ⟨byte, hbyte⟩
  exact ⟨byte.le_toInt, Int.le_of_lt_add_one byte.toInt_lt⟩

end State

/-- **A step on whole numbers is a step on signed bytes.** -/
theorem step_toInts [Host] (program : Program) (state : State) (input : σ) :
    step program state.toInts input
      = (mapResult State.toInts (step program state input).1, (step program state input).2) :=
  step_map (φ := State.toInts) rfl (fun _ => rfl) (state.execute_toInts program) input

/-- **Steps on whole numbers are steps on signed bytes,** if they start with signed bytes. -/
theorem steps_toInts [Host] (program : Program) (n : Nat) (machine : State × σ) :
    steps program n (machine.1.toInts, machine.2)
      = (steps program n machine).map fun later => (later.1.toInts, later.2) := by
  induction n generalizing machine with
  | zero => rfl
  | succ n ih =>
      rw [steps, steps, step_toInts]
      rcases step program machine.1 machine.2 with ⟨fault | next, rest⟩
      · rfl
      · exact ih (next, rest)

/-- **What holds after every number of steps from a fresh tape** of whole numbers. Cells and output are signed bytes;
the program pointer is at an instruction or behind the last one; the memory pointer names a cell from the front; a
ring has all its cells; later states only add to the output and to the tape; and a machine that has not halted takes a
step, unless its tape has to grow by cells that cannot be had. -/
theorem steps_blank_invariant [Host] (program : Program) (hpos : policy.Positive) (input : σ) :
    (State.fresh policy = .ok (State.blank policy : State Int)
      ∨ ∃ modulus e, policy = .ring modulus ∧ cellCount modulus = .error e
        ∧ (State.fresh policy : Except StartError (State Int)) = .error (.room e))
    ∧ ∀ (n : Nat) (state : State Int) (rest : σ),
      steps program n (State.blank policy, input) = some (state, rest) →
        (∀ value ∈ state.cells, -128 ≤ value ∧ value ≤ 127)
        ∧ (∀ value ∈ state.output, -128 ≤ value ∧ value ≤ 127)
        ∧ (0 ≤ state.pc ∧ state.pc ≤ program.size)
        ∧ (0 ≤ state.ptr ∧ state.ptr < state.cells.size)
        ∧ (∀ modulus, policy = .ring modulus → (state.cells.size : Int) = modulus)
        ∧ (∀ (k : Nat) (later : State Int) (rest' : σ),
          steps program (n + k) (State.blank policy, input) = some (later, rest') →
            state.output.toList <+: later.output.toList ∧ state.cells.size ≤ later.cells.size)
        ∧ (state.halted program = false →
          (∃ next, (step program state rest).1 = .ok next)
          ∨ ∃ chunk e fault, policy = .grow chunk ∧ cellCount chunk = .error e
            ∧ fault.error = .room e ∧ (step program state rest).1 = .error fault) := by
  refine ⟨fresh_eq_blank hpos, ?_⟩
  intro n state rest hrun
  -- a blank tape of whole numbers is one of signed bytes
  have hints (n : Nat) : steps program n (State.blank policy, input)
      = (steps program n ((State.blank policy : State), input)).map fun later => (later.1.toInts, later.2) := by
    rw [← steps_toInts, State.blank_toInts]
  rw [hints, Option.map_eq_some_iff] at hrun
  obtain ⟨⟨bytes, rest⟩, hbytes, hstate⟩ := hrun
  cases hstate
  obtain ⟨store, pc, hplace, hpc, hin⟩ := exists_place_of_steps_blank hpos hbytes
  have hsize : bytes.toInts.cells.size = store.cells.size := by
    rw [show bytes = (store.place policy pc).1 from congrArg Prod.fst hplace]
    exact Array.size_map
  have hptr : bytes.toInts.ptr = store.ptr := congrArg (fun machine : State × σ => machine.1.ptr) hplace
  have hstate : bytes.toInts.pc = pc := congrArg (fun machine : State × σ => machine.1.pc) hplace
  have hlt := hin.lt
  refine ⟨fun value h => State.mem_range_toInts (.inl h), fun value h => State.mem_range_toInts (.inr h), ?_, ?_,
    ?_, ?_, ?_⟩
  · show 0 ≤ bytes.toInts.pc ∧ bytes.toInts.pc ≤ program.size
    omega
  · show 0 ≤ bytes.toInts.ptr ∧ bytes.toInts.ptr < bytes.toInts.cells.size
    omega
  · intro modulus hring
    rw [hsize]
    exact hin.ring modulus hring
  · intro k later rest' hlater
    rw [hints, Option.map_eq_some_iff] at hlater
    obtain ⟨⟨last, rest''⟩, hlast, hlater⟩ := hlater
    cases hlater
    rw [steps_add, hbytes, Option.bind_some, hplace] at hlast
    obtain ⟨next, pc', hplace', _, _, hext⟩ := steps_inTape hpos hin hpc hlast
    cases hplace
    cases hplace'
    refine ⟨?_, ?_⟩
    · show (store.output.map Int8.toInt).toList <+: (next.output.map Int8.toInt).toList
      rw [Array.toList_map, Array.toList_map]
      exact hext.output.map _
    · show (store.cells.map Int8.toInt).size ≤ (next.cells.map Int8.toInt).size
      rw [Array.size_map, Array.size_map]
      exact hext.cells
  · intro hhalt
    have hlt : pc < program.size := by
      have hnot : ¬ (program.size : Int) ≤ bytes.toInts.pc := of_decide_eq_false hhalt
      omega
    have hstep := step_inTape hpos hin hlt
    rw [← hplace] at hstep
    rw [step_toInts]
    obtain ⟨next, pc', _, _, _, hstep⟩ | ⟨chunk, e, fault, hgrow, hcount, hroom, hstep⟩ := hstep
    · exact .inl ⟨_, congrArg (fun result => mapResult State.toInts result.1) hstep⟩
    · exact .inr ⟨chunk, e, ⟨fault.error, fault.state.toInts⟩, hgrow, hcount, hroom,
        congrArg (fun result => mapResult State.toInts result.1) hstep⟩

end

open scoped Host in
/-- On a ring of two cells the pointer goes around to the left, and what was written stays. -/
theorem steps_blank_invariant_ring :
    Policy.Positive (.ring 2) ∧ ∃ program : Program, ∃ state : State Int,
      program.instrs = #[.dec, .write, .left, .dec]
      ∧ steps program 3 (State.blank (.ring 2), Input.empty) = some (state, Input.empty)
      ∧ state.ptr = 1 ∧ state.ptr < state.cells.size ∧ state.output = #[-1]
      ∧ ∃ next, (step program state Input.empty).1 = .ok next := by
  let program : Program := ⟨#[.dec, .write, .left, .dec], #[none, none, none, none], rfl⟩
  let state : State Int := { pc := 3, ptr := 1, cells := #[-1, 0], policy := .ring 2, output := #[-1] }
  have hpos : Policy.Positive (.ring 2) := by decide
  have hrun : steps program 3 (State.blank (.ring 2), Input.empty) = some (state, Input.empty) := by
    decide +kernel
  obtain ⟨_, hall⟩ := steps_blank_invariant program hpos Input.empty
  obtain ⟨_, _, _, hptr, _, _, hstep⟩ := hall 3 state Input.empty hrun
  refine ⟨hpos, program, state, rfl, hrun, rfl, hptr.2, rfl, ?_⟩
  rcases hstep (by decide) with hnext | ⟨chunk, _, _, hgrow, _⟩
  · exact hnext
  · exact absurd hgrow (by simp)

end ProgramArt.Tape
