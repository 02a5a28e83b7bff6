import ProgramArt.Host.Standard
import ProgramArt.Proofs.Tape.Growth

/-!
# Rings that are not gone around

The two pointer policies differ only at the ends of the tape. A run on a ring that never steps over the joint between
the last cell and the first, `State.GoesAround`, is a run on an endless tape (`run_ring_stands`), and so is every run
on a growing tape. The two agree, although the condition is on the ring alone.
-/

namespace ProgramArt.Tape

variable {σ : Type}

/-- The next step goes over the joint of a ring: to the left from its first cell, or to the right from its
last. -/
def State.GoesAround (program : Program) (modulus : Int) (state : State) : Prop :=
  (state.current? program = some .left ∧ state.ptr = 0)
  ∨ (state.current? program = some .right ∧ state.ptr = modulus - 1)

theorem Store.current?_place {program : Program} {pc : Nat} {instr : Instr}
    (hget : program.instrs.toList[pc]? = some instr) (policy : Policy) (store : Store σ) :
    (store.place policy pc).1.current? program = some instr := by
  rw [State.current?, Store.halted_place (Program.lt_size hget), if_neg (by simp)]
  exact Program.get?_natCast hget

/-- A step that does not go over the joint is one of an endless tape. -/
theorem Stands.clear {program : Program} {modulus : Int} {outcome : Outcome σ} {store : Store σ}
    {machine : Endless σ} (h : Stands program (.ring modulus) outcome store machine)
    (hinside : ¬ outcome.state.GoesAround program modulus) (action : Action)
    (hget : program.instrs.toList[machine.pc]? = some action.instr) :
    store.Clear (.ring modulus) action := by
  have hsize := h.inTape.ring modulus rfl
  rw [h.state] at hinside
  have hcurrent := Store.current?_place hget (.ring modulus) store
  cases action with
  | left =>
      intro hzero
      refine hinside (.inl ⟨hcurrent, ?_⟩)
      show (store.ptr : Int) = 0
      omega
  | right =>
      intro hlast
      refine hinside (.inr ⟨hcurrent, ?_⟩)
      show (store.ptr : Int) = modulus - 1
      omega
  | inc | dec | read | write => trivial

variable [Source σ]

/-- **A ring that is not gone around shows the endless machine.** Induction on the number of steps. -/
theorem run_ring_stands [Host] (program : Program) {modulus : Int} (hpos : 1 ≤ modulus) (input : σ) {n : Nat}
    (hinside : ∀ k < n,
      ¬ (run program k (State.blank (.ring modulus)) input).state.GoesAround program modulus) :
    ∃ store, Stands program (.ring modulus) (run program n (State.blank (.ring modulus)) input) store
      ((Endless.blank input).run program n) := by
  have hpolicy : (Policy.ring modulus).Positive := hpos
  induction n with
  | zero => exact ⟨_, Stands.blank program hpolicy input⟩
  | succ n ih =>
      obtain ⟨store, hstands⟩ := ih fun k hk => hinside k (Nat.lt_succ_of_lt hk)
      rw [run_succ]
      rcases hstands.next_step hpolicy (hstands.clear (hinside n (Nat.lt_succ_self n))) with
        ⟨next, hnext, _⟩ | ⟨_, _, hgrow, _⟩
      · exact ⟨next, hnext⟩
      · cases hgrow

/-- A program that only goes to the right, and not as far as the end of the ring, does not go around it. -/
theorem not_goesAround_rights [Host] {program : Program} {n : Nat} {modulus : Int}
    (hinstrs : program.instrs.toList = List.replicate n .right) (hlt : (n : Int) < modulus) (input : σ)
    (k : Nat) (hk : k < n) :
    ¬ (run program k (State.blank (.ring modulus)) input).state.GoesAround program modulus := by
  induction k using Nat.strong_induction_on with
  | _ k ih =>
      obtain ⟨store, hstands⟩ := run_ring_stands program (show 1 ≤ modulus by omega) input
        fun j hj => ih j hj (Nat.lt_trans hj hk)
      have hptr := hstands.shows.ptr
      have hget : program.instrs.toList[((Endless.blank input).run program k).pc]? = some .right := by
        rw [Endless.run_rights hinstrs input (Nat.le_of_lt hk), hinstrs, List.getElem?_replicate, if_pos hk]
      rw [Endless.run_rights hinstrs input (Nat.le_of_lt hk)] at hptr
      rw [hstands.state]
      rintro (⟨hcurrent, _⟩ | ⟨_, hlast⟩)
      · rw [Store.current?_place hget] at hcurrent
        cases hcurrent
      · have hlast : (store.ptr : Int) = modulus - 1 := hlast
        have hptr : store.ptr = k := hptr
        omega

/-! ## The two policies -/

/-- **The two policies agree while neither end is crossed.** If no step of a run on a ring goes over its joint,
then the run is one without failure, and the run on a growing tape has come to the same places with the same
output and the same input left; the cells that both tapes have are the same, and the cells that only one of them
has are zero. The run on the growing tape can fail only if it is a chunk that cannot be had, and then it fails
when the pointer comes to the first cell of that chunk. -/
theorem run_ring_agrees_grow [Host] (program : Program) {modulus chunk : Int} (hmodulus : 1 ≤ modulus)
    (hchunk : 1 ≤ chunk) (input : σ) (n : Nat)
    (hinside : ∀ k < n,
      ¬ (run program k (State.blank (.ring modulus)) input).state.GoesAround program modulus) :
    (State.fresh (.ring modulus) = .ok (State.blank (.ring modulus))
      ∨ ∃ e, cellCount modulus = .error e ∧ State.fresh (.ring modulus) = .error (.room e))
    ∧ State.fresh (.grow chunk) = .ok (State.blank (.grow chunk))
    ∧ (run program n (State.blank (.ring modulus)) input).fault = none
    ∧ ((run program n (State.blank (.grow chunk)) input).fault = none →
      (run program n (State.blank (.ring modulus)) input).Agrees
        (run program n (State.blank (.grow chunk)) input))
    ∧ ∀ e, (run program n (State.blank (.grow chunk)) input).fault = some e
      ↔ ∃ room, e = .room room ∧ cellCount chunk = .error room
        ∧ ∃ k ≤ n, 256 ≤ (run program k (State.blank (.ring modulus)) input).state.ptr := by
  obtain ⟨store, hstands⟩ := run_ring_stands program hmodulus input hinside
  refine ⟨?_, rfl, hstands.fault, ?_, ?_⟩
  · rcases fresh_eq_blank (show (Policy.ring modulus).Positive from hmodulus) with
      hfresh | ⟨_, e, hring, hcount, hfresh⟩
    · exact .inl hfresh
    · cases hring
      exact .inr ⟨e, hcount, hfresh⟩
  · intro hfault
    exact hstands.follows.agrees (follows_of_run_grow program hchunk input hfault)
  · intro e
    -- within these steps the pointer on the ring is the one on the endless tape
    have hptr (k : Nat) (hk : k ≤ n) :
        (run program k (State.blank (.ring modulus)) input).state.ptr
          = ((Endless.blank input).run program k).ptr := by
      obtain ⟨store, hstands⟩ := run_ring_stands program hmodulus input
        fun j hj => hinside j (Nat.lt_of_lt_of_le hj hk)
      exact hstands.follows.ptr
    rw [run_grow_fault_iff program hchunk]
    constructor
    · rintro ⟨room, he, hroom, k, hk, hle⟩
      exact ⟨room, he, hroom, k, hk, by rw [hptr k hk]; omega⟩
    · rintro ⟨room, he, hroom, k, hk, hle⟩
      rw [hptr k hk] at hle
      exact ⟨room, he, hroom, k, hk, by omega⟩

open scoped Host in
/-- A growing tape whose chunks cannot be had fails where a longer ring goes on. -/
theorem run_grow_fails_on_ring :
    ∃ program : Program, program.instrs.toList = List.replicate 256 .right
      ∧ (1 : Int) ≤ 300 ∧ (1 : Int) ≤ 9223372036854775808
      ∧ (∀ k < 256, ¬ (run program k (State.blank (.ring 300)) Input.empty).state.GoesAround program 300)
      ∧ (run program 256 (State.blank (.grow 9223372036854775808)) Input.empty).fault
        = some (.room .uncountable)
      ∧ ¬ (run program 256 (State.blank (.ring 300)) Input.empty).Agrees
        (run program 256 (State.blank (.grow 9223372036854775808)) Input.empty) := by
  obtain ⟨program, _, hinstrs⟩ := Program.exists_ofInstrs (isBalanced_rights 256)
  have hpos : (1 : Int) ≤ 9223372036854775808 := by decide
  have hinside := not_goesAround_rights hinstrs (show ((256 : Nat) : Int) < 300 by decide) Input.empty
  obtain ⟨hfault, hpc⟩ := run_grow_rights_fails hinstrs hpos (e := .uncountable) (by decide) Input.empty
  obtain ⟨store, hstands⟩ := run_ring_stands program (show (1 : Int) ≤ 300 by decide) Input.empty hinside
  refine ⟨program, hinstrs, by decide, hpos, hinside, hfault, ?_⟩
  intro hagrees
  have hpc' := hagrees.pc
  rw [hpc, hstands.follows.pc, Endless.run_rights hinstrs Input.empty (Nat.le_refl _)] at hpc'
  exact absurd hpc' (by decide)

open scoped Host in
/-- On a ring of 300 cells and on a tape that grows by one cell at a time a pointer comes to the same cell. -/
theorem run_ring_agrees_grow_far :
    (1 : Int) ≤ 300 ∧ (1 : Int) ≤ 1 ∧ ∃ program : Program,
      program.instrs.toList = List.replicate 260 .right
      ∧ (∀ k < 260, ¬ (run program k (State.blank (.ring 300)) Input.empty).state.GoesAround program 300)
      ∧ (run program 260 (State.blank (.grow 1)) Input.empty).fault = none
      ∧ (run program 260 (State.blank (.ring 300)) Input.empty).Agrees
        (run program 260 (State.blank (.grow 1)) Input.empty) := by
  obtain ⟨program, _, hinstrs⟩ := Program.exists_ofInstrs (isBalanced_rights 260)
  have hinside := not_goesAround_rights hinstrs (show ((260 : Nat) : Int) < 300 by decide) Input.empty
  obtain ⟨_, _, _, hagrees, hfails⟩ := run_ring_agrees_grow program (show (1 : Int) ≤ 300 by decide)
    (show (1 : Int) ≤ 1 by decide) Input.empty 260 hinside
  have hfault : (run program 260 (State.blank (.grow 1)) Input.empty).fault = none := by
    rw [Option.eq_none_iff_forall_ne_some]
    intro e he
    obtain ⟨room, _, hroom, _⟩ := (hfails e).mp he
    rw [show cellCount 1 = .ok 1 by decide] at hroom
    cases hroom
  exact ⟨by decide, by decide, program, hinstrs, hinside, hfault, hagrees hfault⟩

end ProgramArt.Tape
