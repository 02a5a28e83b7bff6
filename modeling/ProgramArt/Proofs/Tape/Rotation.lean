import ProgramArt.Host.Standard
import ProgramArt.Proofs.Tape.Endless

/-!
# Rings have no first cell

A ring of cells can be turned: every cell moves so many places on, and the pointer moves with them (`State.rotate`).
Programs cannot tell. A turned machine takes the same steps (`step_rotate`), comes to the same ends and fails in the
same way, and at each moment it is the other machine, turned.
-/

namespace ProgramArt.Tape

/-! ## Places of a ring -/

/-- The place of a ring of `n` cells that is `k` places on from place `i`. -/
def turn (n : Nat) (k i : Int) : Nat := ((i + k) % n).toNat

section Turn

variable {n i j : Nat} {k : Int}

theorem natCast_turn (hn : 0 < n) (k i : Int) : (turn n k i : Int) = (i + k) % n :=
  Int.toNat_of_nonneg (Int.emod_nonneg _ (by omega))

theorem turn_lt (hn : 0 < n) (k i : Int) : turn n k i < n := by
  have hlt : (i + k) % n < n := Int.emod_lt_of_pos _ (by omega)
  rw [← natCast_turn hn] at hlt
  exact Int.ofNat_lt.mp hlt

/-- Turning back undoes a turn. -/
theorem turn_turn (hi : i < n) (k : Int) : turn n (-k) (turn n k i) = i := by
  have hn : 0 < n := Nat.zero_lt_of_lt hi
  refine Int.ofNat.inj ?_
  show (turn n (-k) (turn n k i) : Int) = i
  rw [natCast_turn hn, natCast_turn hn, Int.emod_add_emod, Int.add_neg_cancel_right,
    Int.emod_eq_of_lt (Int.natCast_nonneg i) (Int.ofNat_lt.mpr hi)]

theorem turn_eq_iff (hi : i < n) (hj : j < n) : turn n k i = j ↔ i = turn n (-k) j := by
  constructor
  · rintro rfl
    exact (turn_turn hi k).symm
  · rintro rfl
    have hback := turn_turn hj (-k)
    rwa [Int.neg_neg] at hback

end Turn

/-! ## Machines on a ring -/

section

variable {α : Type}

/-- A machine on a ring of `modulus` cells, with its pointer at one of them. -/
structure State.Ringed (state : State α) (modulus : Int) : Prop where
  policy : state.policy = .ring modulus
  size : (state.cells.size : Int) = modulus
  nonneg : 0 ≤ state.ptr
  lt : state.ptr < modulus

/-- Move the cells of a ring `k` places on, and the pointer with them. -/
def State.rotate [Cell α] (k : Int) (state : State α) : State α :=
  { state with
    ptr := (state.ptr + k) % state.cells.size
    cells := Array.ofFn fun i : Fin state.cells.size =>
      state.cells.getD (turn state.cells.size (-k) i.val) Cell.zero }

namespace State.Ringed

variable {state : State α} {modulus : Int}

/-- The pointer as a place of the ring. -/
theorem exists_place (h : state.Ringed modulus) :
    ∃ place : Nat, state.ptr = place ∧ place < state.cells.size := by
  have hsize := h.size
  have hnonneg := h.nonneg
  have hlt := h.lt
  exact ⟨state.ptr.toNat, (Int.toNat_of_nonneg hnonneg).symm, by omega⟩

theorem move (h : state.Ringed modulus) (ptr : Int) :
    State.Ringed { state with ptr := ptr % modulus } modulus := by
  have hpos : 0 < modulus := Int.lt_of_le_of_lt h.nonneg h.lt
  exact ⟨h.policy, h.size, Int.emod_nonneg _ (by omega), Int.emod_lt_of_pos _ hpos⟩

end State.Ringed

section Rotate

variable {state : State α} {modulus : Int}

theorem setCell?_eq {place : Nat} (hptr : state.ptr = place) (hlt : place < state.cells.size) (value : α) :
    state.setCell? value = some { state with cells := state.cells.set place value hlt } := by
  have hplace : Index.resolve state.cells.size state.ptr = some ⟨place, hlt⟩ := by
    rw [hptr]
    exact Index.resolve_natCast hlt
  rw [State.setCell?, hplace]

theorem moveLeft_eq (h : state.Ringed modulus) :
    state.moveLeft = .ok { state with ptr := (state.ptr + -1) % modulus } := by
  have hturn : state.moveLeft = state.turnTo modulus (state.ptr - 1) := by rw [State.moveLeft, h.policy]
  rw [hturn]
  exact Store.turnTo_of_pos (Int.lt_of_le_of_lt h.nonneg h.lt) _

variable [Cell α]

theorem State.size_rotate (k : Int) (state : State α) : (state.rotate k).cells.size = state.cells.size :=
  Array.size_ofFn

theorem State.getElem?_rotate (k : Int) (state : State α) {i : Nat} (hi : i < state.cells.size) :
    (state.rotate k).cells[i]? = state.cells[turn state.cells.size (-k) i]? := by
  have hlt := turn_lt (Nat.zero_lt_of_lt hi) (-k) i
  have hget : (state.rotate k).cells[i]? = some (state.cells.getD (turn state.cells.size (-k) i) Cell.zero) := by
    rw [State.rotate, Array.getElem?_ofFn, dif_pos hi]
  rw [hget, Array.getD_eq_getD_getElem?, Array.getElem?_eq_getElem hlt, Option.getD_some]

/-- The cell at a place has moved on with its place. -/
theorem State.getElem?_rotate_turn (k : Int) (state : State α) {i : Nat} (hi : i < state.cells.size) :
    (state.rotate k).cells[turn state.cells.size k i]? = state.cells[i]? := by
  rw [State.getElem?_rotate k state (turn_lt (Nat.zero_lt_of_lt hi) k i), turn_turn hi]

theorem State.Ringed.rotate (h : state.Ringed modulus) (k : Int) : (state.rotate k).Ringed modulus := by
  have hsize := h.size
  have hpos : 0 < modulus := Int.lt_of_le_of_lt h.nonneg h.lt
  refine ⟨h.policy, by rw [State.size_rotate, hsize], ?_, ?_⟩
  · exact Int.emod_nonneg _ (by omega)
  · show (state.ptr + k) % state.cells.size < modulus
    rw [hsize]
    exact Int.emod_lt_of_pos _ hpos

/-- The pointer has moved on with its place. -/
theorem ptr_rotate {place : Nat} (hptr : state.ptr = place) (hlt : place < state.cells.size) (k : Int) :
    (state.rotate k).ptr = turn state.cells.size k place := by
  rw [natCast_turn (Nat.zero_lt_of_lt hlt), ← hptr]
  rfl

theorem turn_lt_size_rotate {place : Nat} (hlt : place < state.cells.size) (k : Int) :
    turn state.cells.size k place < (state.rotate k).cells.size := by
  rw [State.size_rotate]
  exact turn_lt (Nat.zero_lt_of_lt hlt) k place

theorem cell?_rotate (h : state.Ringed modulus) (k : Int) : (state.rotate k).cell? = state.cell? := by
  obtain ⟨place, hptr, hlt⟩ := h.exists_place
  have hturn := turn_lt_size_rotate hlt k
  have hcell := State.getElem?_rotate_turn k state hlt
  rw [Array.getElem?_eq_getElem hturn, Array.getElem?_eq_getElem hlt] at hcell
  rw [State.cell?, State.cell?, ptr_rotate hptr hlt, hptr, Index.resolve_natCast hturn,
    Index.resolve_natCast hlt]
  exact hcell

/-- Replacing a cell and turning the ring can be done in either order. -/
theorem rotate_set {place : Nat} (hlt : place < state.cells.size) (k : Int) (value : α)
    (hturn : turn state.cells.size k place < (state.rotate k).cells.size) :
    { state.rotate k with cells := (state.rotate k).cells.set (turn state.cells.size k place) value hturn }
      = State.rotate k { state with cells := state.cells.set place value hlt } := by
  have hsize : (state.cells.set place value hlt).size = state.cells.size := Array.size_set ..
  have hcells : (state.rotate k).cells.set (turn state.cells.size k place) value hturn
      = (State.rotate k { state with cells := state.cells.set place value hlt }).cells := by
    apply Array.ext_getElem?
    intro i
    by_cases hi : i < state.cells.size
    · have hi' : i < (state.cells.set place value hlt).size := by rwa [hsize]
      rw [State.getElem?_rotate k { state with cells := state.cells.set place value hlt } hi']
      simp only [hsize, Array.getElem?_set, turn_eq_iff hlt hi, State.getElem?_rotate k state hi]
    · rw [Array.getElem?_eq_none, Array.getElem?_eq_none]
      · rw [State.size_rotate, hsize]
        omega
      · rw [Array.size_set, State.size_rotate]
        omega
  rw [hcells]
  simp only [State.rotate, hsize]

theorem setCell?_rotate (h : state.Ringed modulus) (k : Int) (value : α) :
    (state.rotate k).setCell? value = (state.setCell? value).map (State.rotate k) := by
  obtain ⟨place, hptr, hlt⟩ := h.exists_place
  have hturn := turn_lt_size_rotate hlt k
  rw [setCell?_eq hptr hlt, setCell?_eq (ptr_rotate hptr hlt k) hturn, rotate_set hlt]
  rfl

/-- A move and a turn can be made in either order. -/
theorem rotate_move (h : state.Ringed modulus) (k d : Int) :
    State.rotate k { state with ptr := (state.ptr + d) % modulus }
      = { state.rotate k with ptr := ((state.rotate k).ptr + d) % modulus } := by
  have hptr : ((state.ptr + d) % modulus + k) % modulus = ((state.ptr + k) % modulus + d) % modulus := by
    rw [Int.emod_add_emod, Int.emod_add_emod, Int.add_right_comm]
  simp only [State.rotate, h.size, hptr]

theorem moveRight_eq [Host] (h : state.Ringed modulus) :
    state.moveRight = .ok { state with ptr := (state.ptr + 1) % modulus } := by
  have hturn : state.moveRight = state.turnTo modulus (state.ptr + 1) := by rw [State.moveRight, h.policy]
  rw [hturn]
  exact Store.turnTo_of_pos (Int.lt_of_le_of_lt h.nonneg h.lt) _

end Rotate

/-! ## Steps -/

section Steps

variable [Cell α] {state : State α} {modulus : Int}

theorem load_eq (h : state.Ringed modulus) : ∃ value, state.load = .ok value
    ∧ ∀ k, (state.rotate k).load = .ok value := by
  obtain ⟨place, hptr, hlt⟩ := h.exists_place
  have hcell : state.cell? = some state.cells[place] := by
    rw [State.cell?, hptr, Index.resolve_natCast hlt]
    rfl
  refine ⟨state.cells[place], ?_, ?_⟩
  · rw [State.load, hcell]
  · intro k
    rw [State.load, cell?_rotate h, hcell]

theorem store_rotate (h : state.Ringed modulus) (k : Int) (value : α) :
    (state.rotate k).store value = mapResult (State.rotate k) (state.store value) := by
  obtain ⟨place, hptr, hlt⟩ := h.exists_place
  rw [State.store, State.store, setCell?_rotate h, setCell?_eq hptr hlt]
  rfl

theorem jump_rotate (state : State α) (program : Program) (k : Int) :
    (state.rotate k).jump program = mapResult (State.rotate k) (state.jump program) := by
  have hpc : (state.rotate k).pc = state.pc := rfl
  rw [State.jump, State.jump, hpc]
  split <;> rfl

variable [DecidableEq α]

/-- **An instruction on a turned ring** does what it does on the ring, turned. -/
theorem execute_rotate [Host] (h : state.Ringed modulus) (program : Program) (value : Option Int) (instr : Instr)
    (k : Int) :
    (state.rotate k).execute program value instr = mapResult (State.rotate k) (state.execute program value instr) := by
  obtain ⟨cell, hload, hload'⟩ := load_eq h
  cases instr with
  | inc | dec =>
      simp only [State.execute, hload, hload' k, bind, Except.bind]
      exact store_rotate h k _
  | left =>
      rw [State.execute, State.execute, moveLeft_eq (h.rotate k), moveLeft_eq h, ← rotate_move h]
      rfl
  | right =>
      rw [State.execute, State.execute, moveRight_eq (h.rotate k), moveRight_eq h,
        ← rotate_move h]
      rfl
  | enter =>
      simp only [State.execute, hload, hload' k, bind, Except.bind]
      split
      · exact jump_rotate state program k
      · rfl
  | leave =>
      simp only [State.execute, hload, hload' k, bind, Except.bind]
      split
      · rfl
      · exact jump_rotate state program k
  | read => exact store_rotate h k _
  | write =>
      simp only [State.execute, hload, hload' k, bind, Except.bind]
      rfl

/-- A machine stays on its ring. -/
theorem State.Ringed.execute [Host] (h : state.Ringed modulus) {program : Program} {value : Option Int}
    {instr : Instr} {next : State α} (hnext : state.execute program value instr = .ok next) :
    next.Ringed modulus := by
  obtain ⟨place, hptr, hlt⟩ := h.exists_place
  obtain ⟨cell, hload, _⟩ := load_eq h
  -- neither a store nor a jump changes the size or the pointer
  have hstore (value : α) (next : State α) (hnext : state.store value = .ok next) : next.Ringed modulus := by
    rw [State.store, setCell?_eq hptr hlt] at hnext
    injection hnext with hnext
    subst hnext
    exact ⟨h.policy, by rw [Array.size_set, h.size], h.nonneg, h.lt⟩
  have hjump (next : State α) (hnext : state.jump program = .ok next) : next.Ringed modulus := by
    rw [State.jump] at hnext
    split at hnext
    · injection hnext with hnext
      subst hnext
      exact ⟨h.policy, h.size, h.nonneg, h.lt⟩
    · cases hnext
  cases instr with
  | inc | dec =>
      simp only [State.execute, hload, bind, Except.bind] at hnext
      exact hstore _ _ hnext
  | left =>
      rw [State.execute, moveLeft_eq h] at hnext
      injection hnext with hnext
      subst hnext
      exact h.move _
  | right =>
      rw [State.execute, moveRight_eq h] at hnext
      injection hnext with hnext
      subst hnext
      exact h.move _
  | enter =>
      simp only [State.execute, hload, bind, Except.bind] at hnext
      split at hnext
      · exact hjump _ hnext
      · injection hnext with hnext
        exact hnext ▸ h
  | leave =>
      simp only [State.execute, hload, bind, Except.bind] at hnext
      split at hnext
      · injection hnext with hnext
        exact hnext ▸ h
      · exact hjump _ hnext
  | read => exact hstore _ _ hnext
  | write =>
      simp only [State.execute, hload, bind, Except.bind] at hnext
      injection hnext with hnext
      subst hnext
      exact ⟨h.policy, h.size, h.nonneg, h.lt⟩

variable {σ : Type} [Source σ]

/-- **A step of a turned machine** is the step of the machine, turned. -/
theorem step_rotate [Host] (h : state.Ringed modulus) (program : Program) (input : σ) (k : Int) :
    step program (state.rotate k) input
      = (mapResult (State.rotate k) (step program state input).1, (step program state input).2) :=
  step_map (φ := State.rotate k) rfl (fun _ => rfl) (fun value instr => execute_rotate h program value instr k) input

/-- A step that succeeds executes an instruction and moves on. -/
theorem exists_execute_of_step [Host] {program : Program} {input rest : σ} {next : State α}
    (h : step program state input = (.ok next, rest)) :
    ∃ value instr after, state.execute program value instr = .ok after ∧ next = after.advance := by
  have hmap {result : Except (Fault α) (State α)} (hresult : result.map State.advance = .ok next) :
      ∃ after, result = .ok after ∧ next = after.advance := by
    cases result with
    | error fault => cases hresult
    | ok after => exact ⟨after, rfl, (Except.ok.inj hresult).symm⟩
  rw [step] at h
  split at h
  · cases h
  · split at h
    · cases h
    · obtain ⟨after, hafter, rfl⟩ := hmap (congrArg Prod.fst h)
      exact ⟨_, _, after, hafter, rfl⟩
    · obtain ⟨after, hafter, rfl⟩ := hmap (congrArg Prod.fst h)
      exact ⟨_, _, after, hafter, rfl⟩

theorem State.Ringed.step [Host] (h : state.Ringed modulus) {program : Program} {input rest : σ} {next : State α}
    (hnext : step program state input = (.ok next, rest)) : next.Ringed modulus := by
  obtain ⟨value, instr, after, hexecute, rfl⟩ := exists_execute_of_step hnext
  have hafter := h.execute hexecute
  exact ⟨hafter.policy, hafter.size, hafter.nonneg, hafter.lt⟩

end Steps

/-! ## Runs -/

variable [Cell α] {σ : Type}

/-- What comes of a run of a turned machine. -/
def Outcome.rotate (k : Int) (outcome : Outcome σ α) : Outcome σ α :=
  { outcome with state := outcome.state.rotate k }

variable [DecidableEq α] [Source σ] {modulus : Int}

/-- One more step of a turned machine. -/
theorem Outcome.next_rotate [Host] {outcome : Outcome σ α} (h : outcome.state.Ringed modulus) (program : Program)
    (k : Int) : (outcome.rotate k).next program = (outcome.next program).rotate k := by
  by_cases hends : (outcome.fault.isSome || outcome.state.halted program) = true
  · have hends' : ((outcome.rotate k).fault.isSome || (outcome.rotate k).state.halted program) = true := hends
    rw [Outcome.next, Outcome.next, if_pos hends, if_pos hends']
  · have hends' : ¬ ((outcome.rotate k).fault.isSome || (outcome.rotate k).state.halted program) = true := hends
    rw [Outcome.next, Outcome.next, if_neg hends, if_neg hends']
    have hstep := step_rotate h program outcome.input k
    change step program (outcome.rotate k).state (outcome.rotate k).input = _ at hstep
    rw [hstep]
    cases hresult : step program outcome.state outcome.input with
    | mk result rest => cases result <;> rfl

/-- A run that has not failed leaves the machine on its ring. -/
theorem Outcome.ringed_next [Host] {outcome : Outcome σ α} (h : outcome.state.Ringed modulus) (program : Program)
    (hfault : (outcome.next program).fault = none) : (outcome.next program).state.Ringed modulus := by
  rw [Outcome.next] at hfault ⊢
  split
  · exact h
  · rename_i hends
    rw [if_neg hends] at hfault
    split
    · rename_i next rest hstep
      exact h.step hstep
    · rename_i fault rest hstep
      rw [hstep] at hfault
      cases hfault

/-- A turned machine comes to what the machine comes to, turned. Induction on the number of steps. -/
theorem run_rotate_eq [Host] {state : State α} (h : state.Ringed modulus) (program : Program) (input : σ) (k : Int)
    (n : Nat) :
    run program n (state.rotate k) input = (run program n state input).rotate k
    ∧ ((run program n state input).fault = none → (run program n state input).state.Ringed modulus) := by
  induction n with
  | zero => exact ⟨rfl, fun _ => h⟩
  | succ n ih =>
      obtain ⟨hrun, hringed⟩ := ih
      rw [run_succ, run_succ, hrun]
      by_cases hfault : (run program n state input).fault = none
      · exact ⟨Outcome.next_rotate (hringed hfault) program k,
          Outcome.ringed_next (hringed hfault) program⟩
      · have hfault' : ((run program n state input).rotate k).fault ≠ none := hfault
        rw [Outcome.next_of_fault hfault, Outcome.next_of_fault hfault']
        exact ⟨rfl, hringed⟩

/-- **Programs cannot tell where a ring begins.** Turn a machine on a ring of `modulus` cells: the cell at each
place and the pointer move `k` places on. After any number of steps, or at the halt before them, the turned
machine is the machine, turned; it is at the same place of the program, has written the same output, has the same
input left and has taken as many steps, or has failed in the same way. -/
theorem run_rotate [Host] {state : State α} (h : state.Ringed modulus) (program : Program) (input : σ) (k : Int)
    (n : Nat) :
    (∀ i < state.cells.size, (state.rotate k).cells[((i + k) % modulus).toNat]? = state.cells[i]?)
    ∧ (state.rotate k).cells.size = state.cells.size ∧ (state.rotate k).ptr = (state.ptr + k) % modulus
    ∧ (run program n (state.rotate k) input).state = (run program n state input).state.rotate k
    ∧ (run program n (state.rotate k) input).state.pc = (run program n state input).state.pc
    ∧ (run program n (state.rotate k) input).state.output = (run program n state input).state.output
    ∧ (run program n (state.rotate k) input).input = (run program n state input).input
    ∧ (run program n (state.rotate k) input).steps = (run program n state input).steps
    ∧ (run program n (state.rotate k) input).fault = (run program n state input).fault := by
  obtain ⟨hrun, _⟩ := run_rotate_eq h program input k n
  refine ⟨?_, state.size_rotate k, ?_, ?_⟩
  · intro i hi
    rw [← h.size]
    exact State.getElem?_rotate_turn k state hi
  · rw [← h.size]
    rfl
  · rw [hrun]
    exact ⟨rfl, rfl, rfl, rfl, rfl, rfl⟩

end

open scoped Host in
/-- A ring of three cells, turned by one: the pointer of the turned machine goes around the joint where that of
the machine does not. -/
theorem run_rotate_over_joint :
    State.Ringed (α := Int) { ptr := 1, cells := #[0, 500, 0], policy := .ring 3 } 3
    ∧ ∃ program : Program, program.instrs = #[.right, .inc, .write]
      ∧ (run program 3 (State.rotate (α := Int) 1 { ptr := 1, cells := #[0, 500, 0], policy := .ring 3 })
          Input.empty).state
        = { pc := 3, ptr := 0, cells := #[1, 0, 500], policy := .ring 3, output := #[1] } := by
  have hringed : State.Ringed (α := Int) { ptr := 1, cells := #[0, 500, 0], policy := .ring 3 } 3 :=
    ⟨rfl, rfl, by decide, by decide⟩
  let program : Program := ⟨#[.right, .inc, .write], #[none, none, none], rfl⟩
  refine ⟨hringed, program, rfl, ?_⟩
  obtain ⟨_, _, _, hstate, _⟩ := run_rotate hringed program Input.empty 1 3
  rw [hstate]
  decide +kernel

end ProgramArt.Tape
