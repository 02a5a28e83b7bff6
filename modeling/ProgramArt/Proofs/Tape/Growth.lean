import ProgramArt.Host.Standard
import ProgramArt.Proofs.Tape.Endless

/-!
# Growing tapes

A growing tape starts with a fixed number of cells and gets a chunk of new ones each time its pointer leaves it. It
behaves like a tape without a right end, whatever the chunks are (`Outcome.Follows`), and it is never longer than it
has to be: the number of chunks is the least with which the tape reaches beyond every place where the pointer has been
(`Chunked`). The only difference to an endless tape is that chunks can be too large to be had.
-/

namespace ProgramArt.Tape

variable {σ : Type}

/-! ## Comparing runs -/

/-- Where a run has come to, an endless machine has come to as well. -/
structure Outcome.Follows (outcome : Outcome σ) (machine : Endless σ) : Prop where
  pc : outcome.state.pc = machine.pc
  ptr : outcome.state.ptr = machine.ptr
  output : outcome.state.output = machine.output
  input : outcome.input = machine.input
  cells : ∀ i < outcome.state.cells.size, outcome.state.cells[i]? = some (machine.cells i)
  zeros : ∀ i, outcome.state.cells.size ≤ i → machine.cells i = 0

/-- Two runs differ in nothing but the lengths of their tapes: cells that both have are the same, and a cell
that only one of them has is zero. -/
structure Outcome.Agrees (a b : Outcome σ) : Prop where
  pc : a.state.pc = b.state.pc
  ptr : a.state.ptr = b.state.ptr
  output : a.state.output = b.state.output
  input : a.input = b.input
  both : ∀ i < a.state.cells.size, i < b.state.cells.size → a.state.cells[i]? = b.state.cells[i]?
  first : ∀ i < a.state.cells.size, b.state.cells.size ≤ i → a.state.cells[i]? = some 0
  second : ∀ i < b.state.cells.size, a.state.cells.size ≤ i → b.state.cells[i]? = some 0

/-- Runs that follow the same machine agree. -/
theorem Outcome.Follows.agrees {a b : Outcome σ} {machine : Endless σ} (ha : a.Follows machine)
    (hb : b.Follows machine) : a.Agrees b where
  pc := ha.pc.trans hb.pc.symm
  ptr := ha.ptr.trans hb.ptr.symm
  output := ha.output.trans hb.output.symm
  input := ha.input.trans hb.input.symm
  both i hi hi' := (ha.cells i hi).trans (hb.cells i hi').symm
  first i hi hi' := by rw [ha.cells i hi, hb.zeros i hi']
  second i hi hi' := by rw [hb.cells i hi, ha.zeros i hi']

theorem Stands.follows {program : Program} {policy : Policy} {outcome : Outcome σ} {store : Store σ}
    {machine : Endless σ} (h : Stands program policy outcome store machine) : outcome.Follows machine := by
  have hshows := h.shows
  have hcells : outcome.state.cells = store.cells := by
    rw [h.state]
    rfl
  refine ⟨?_, ?_, ?_, h.input.trans hshows.input, ?_, ?_⟩
  · rw [h.state]
    rfl
  · rw [h.state, ← hshows.ptr]
    rfl
  · rw [h.state, ← hshows.output]
    rfl
  · intro i hi
    rw [← hshows.cells i, ← hcells, Array.getD_eq_getD_getElem?, Array.getElem?_eq_getElem hi,
      Option.getD_some]
  · intro i hi
    rw [← hshows.cells i, ← hcells, Array.getD_eq_getD_getElem?, Array.getElem?_eq_none hi, Option.getD_none]

/-! ## Chunks -/

/-- New cells come in the number that was asked for. -/
theorem cellCount_eq [Host] {chunk : Int} {count : Nat} (hpos : 1 ≤ chunk) (h : cellCount chunk = .ok count) :
    (count : Int) = chunk := by
  simp only [cellCount] at h
  split at h
  · exact absurd h (by simp)
  · split at h
    · exact absurd h (by simp)
    · injection h with h
      omega

/-- A tape of `size` cells that has been given `k` chunks, as few as a pointer needs that has come as far as
`peak`. -/
structure Chunked [Host] (chunk : Int) (peak size k : Nat) : Prop where
  size : (size : Int) = 256 + chunk * k
  least : IsLeast {k : Nat | (peak : Int) < 256 + chunk * k} k
  room : 0 < k → ∃ count, cellCount chunk = .ok count

namespace Chunked

variable {chunk : Int} {peak size k : Nat}

theorem initial [Host] (chunk : Int) : Chunked chunk 0 initialCells 0 := by
  refine ⟨by simp [initialCells], ⟨by simp, ?_⟩, fun h => absurd h (Nat.lt_irrefl 0)⟩
  intro j _
  exact Nat.zero_le j

/-- Nothing is added for a pointer that stays in the tape. -/
theorem stay [Host] {ptr : Nat} (h : Chunked chunk peak size k) (hptr : ptr < size) :
    Chunked chunk (max peak ptr) size k := by
  have hsize := h.size
  have hmem : (peak : Int) < 256 + chunk * k := h.least.1
  refine ⟨hsize, ⟨?_, ?_⟩, h.room⟩
  · show ((max peak ptr : Nat) : Int) < 256 + chunk * k
    omega
  · intro j hj
    have hj : ((max peak ptr : Nat) : Int) < 256 + chunk * j := hj
    refine h.least.2 ?_
    show (peak : Int) < 256 + chunk * j
    omega

/-- One chunk is added for a pointer that has just left the tape. -/
theorem grow [Host] {count : Nat} (hpos : 1 ≤ chunk) (h : Chunked chunk peak size k)
    (hcount : cellCount chunk = .ok count) : Chunked chunk (max peak size) (size + count) (k + 1) := by
  have hsize := h.size
  have hmem : (peak : Int) < 256 + chunk * k := h.least.1
  have hchunk := cellCount_eq hpos hcount
  have hmax : ((max peak size : Nat) : Int) = 256 + chunk * k := by omega
  refine ⟨?_, ⟨?_, ?_⟩, fun _ => ⟨count, hcount⟩⟩
  · rw [Int.natCast_add, hsize, hchunk, Int.natCast_add, Int.mul_add, Int.natCast_one, Int.mul_one]
    omega
  · show ((max peak size : Nat) : Int) < 256 + chunk * ((k + 1 : Nat) : Int)
    rw [hmax, Int.natCast_add, Int.mul_add, Int.natCast_one, Int.mul_one]
    omega
  · intro j hj
    have hj : ((max peak size : Nat) : Int) < 256 + chunk * j := hj
    have hlt : chunk * (k : Int) < chunk * (j : Int) := by omega
    have hkj : (k : Int) < j := Int.lt_of_mul_lt_mul_left hlt (by omega)
    omega

/-- A tape that cannot grow has never been left. -/
theorem peak_lt [Host] {e : RoomError} (h : Chunked chunk peak size k) (hroom : cellCount chunk = .error e) :
    peak < 256 := by
  have hzero : k = 0 := by
    rcases Nat.eq_zero_or_pos k with hzero | hk
    · exact hzero
    · obtain ⟨count, hcount⟩ := h.room hk
      rw [hroom] at hcount
      cases hcount
  have hmem : (peak : Int) < 256 + chunk * k := h.least.1
  rw [hzero] at hmem
  omega

theorem le_size [Host] (hpos : 1 ≤ chunk) (h : Chunked chunk peak size k) : 256 ≤ size := by
  have hsize := h.size
  have hnonneg : 0 ≤ chunk * (k : Int) := Int.mul_nonneg (by omega) (Int.natCast_nonneg k)
  omega

end Chunked

/-! ## Runs on a growing tape -/

variable [Source σ]

/-- **What runs on a growing tape come to:** a store that shows the endless machine, on as few chunks as its
pointer has needed, or a failure once the pointer has left the first cells of a tape that cannot grow.
Induction on the number of steps. -/
theorem run_grow_cases [Host] (program : Program) {chunk : Int} (hpos : 1 ≤ chunk) (input : σ) (n : Nat) :
    (∃ store k, Stands program (.grow chunk) (run program n (State.blank (.grow chunk)) input) store
        ((Endless.blank input).run program n)
      ∧ Chunked chunk ((Endless.blank input).peak program n) store.cells.size k)
    ∨ ∃ e, cellCount chunk = .error e
      ∧ (run program n (State.blank (.grow chunk)) input).fault = some (.room e)
      ∧ 256 ≤ (Endless.blank input).peak program n := by
  have hpolicy : (Policy.grow chunk).Positive := hpos
  induction n with
  | zero =>
      refine .inl ⟨_, 0, Stands.blank program hpolicy input, ?_⟩
      have hsize : (Store.ofState (State.blank (.grow chunk)) input).cells.size = initialCells :=
        Array.size_replicate
      rw [hsize]
      exact Chunked.initial chunk
  | succ n ih =>
      rw [run_succ]
      rcases ih with ⟨store, k, hstands, hchunked⟩ | ⟨e, hroom, hfault, hpeak⟩
      · -- a step is one of the endless tape too, unless there is no room for a chunk
        rcases hstands.next_step hpolicy (fun action _ => store.clear_grow _ action) with
          ⟨next, hnext, hgrowth⟩ | ⟨chunk', e, hgrow, hroom, hfault, _, hptr⟩
        · have hptr : next.ptr = ((Endless.blank input).run program (n + 1)).ptr := hnext.shows.ptr
          rcases hgrowth with ⟨hsize, hlt⟩ | ⟨chunk', count, hgrow, hcount, hend, hsize⟩
          · refine .inl ⟨next, k, hnext, ?_⟩
            rw [Endless.peak, ← hptr, hsize]
            exact hchunked.stay hlt
          · cases hgrow
            refine .inl ⟨next, k + 1, hnext, ?_⟩
            rw [Endless.peak, ← hptr, hend, hsize]
            exact hchunked.grow hpos hcount
        · cases hgrow
          refine .inr ⟨e, hroom, hfault, ?_⟩
          have hsize := hchunked.le_size hpos
          rw [← hptr] at hsize
          exact Nat.le_trans hsize (Nat.le_max_right _ _)
      · refine .inr ⟨e, hroom, ?_, Nat.le_trans hpeak (Nat.le_max_left _ _)⟩
        rw [Outcome.next_of_fault (by simp [hfault]), hfault]

theorem le_peak_iff (program : Program) (machine : Endless σ) (n bound : Nat) :
    bound ≤ machine.peak program n ↔ ∃ j ≤ n, bound ≤ (machine.run program j).ptr := by
  obtain ⟨⟨i, hi, hptr⟩, hupper⟩ := Endless.isGreatest_peak program n machine
  constructor
  · intro hle
    exact ⟨i, hi, by rwa [hptr]⟩
  · rintro ⟨j, hj, hle⟩
    exact Nat.le_trans hle (hupper ⟨j, hj, rfl⟩)

/-- A run that has not failed follows the endless machine. -/
theorem follows_of_run_grow [Host] (program : Program) {chunk : Int} (hpos : 1 ≤ chunk) (input : σ) {n : Nat}
    (h : (run program n (State.blank (.grow chunk)) input).fault = none) :
    (run program n (State.blank (.grow chunk)) input).Follows ((Endless.blank input).run program n) := by
  rcases run_grow_cases program hpos input n with ⟨store, k, hstands, _⟩ | ⟨e, _, hfault, _⟩
  · exact hstands.follows
  · rw [hfault] at h
    cases h

/-- A run fails exactly when the pointer has to leave the first cells of a tape that cannot grow. -/
theorem run_grow_fault_iff [Host] (program : Program) {chunk : Int} (hpos : 1 ≤ chunk) (input : σ) (n : Nat)
    (e : StepError) :
    (run program n (State.blank (.grow chunk)) input).fault = some e
      ↔ ∃ room, e = .room room ∧ cellCount chunk = .error room
        ∧ ∃ j ≤ n, 256 ≤ ((Endless.blank input).run program j).ptr := by
  simp only [← le_peak_iff program (Endless.blank input) n 256]
  rcases run_grow_cases program hpos input n with ⟨store, k, hstands, hchunked⟩ | ⟨room, hroom, hfault, hpeak⟩
  · rw [hstands.fault]
    constructor
    · intro h
      cases h
    · rintro ⟨room, _, hroom, hpeak⟩
      have hlt := hchunked.peak_lt hroom
      omega
  · rw [hfault]
    constructor
    · intro h
      cases h
      exact ⟨room, rfl, hroom, hpeak⟩
    · rintro ⟨room', rfl, hroom', _⟩
      rw [hroom] at hroom'
      cases hroom'
      rfl

/-! ## Programs that only go to the right -/

theorem isBalanced_rights (n : Nat) : isBalanced (List.replicate n .right) = true := by
  suffices h : depthAfter? 0 (List.replicate n .right) = some 0 by rw [isBalanced, h]; rfl
  induction n with
  | zero => rfl
  | succ n ih => rw [List.replicate_succ, depthAfter?, ih] <;> simp

theorem Endless.run_rights {program : Program} {n j : Nat}
    (h : program.instrs.toList = List.replicate n .right) (input : σ) (hj : j ≤ n) :
    (Endless.blank input).run program j = { Endless.blank input with pc := j, ptr := j } := by
  induction j with
  | zero => rfl
  | succ j ih =>
      have hget : program.instrs.toList[j]? = some Action.right.instr := by
        rw [h, List.getElem?_replicate, if_pos (show j < n by omega)]
        rfl
      rw [Endless.run, ih (by omega), Endless.step_act hget]
      rfl

/-- On a tape that cannot grow the step off the first cells fails, and the machine stays before it. -/
theorem run_grow_rights_fails [Host] {program : Program} {chunk : Int} {e : RoomError}
    (hinstrs : program.instrs.toList = List.replicate 256 .right) (hpos : 1 ≤ chunk)
    (hroom : cellCount chunk = .error e) (input : σ) :
    (run program 256 (State.blank (.grow chunk)) input).fault = some (.room e)
    ∧ (run program 256 (State.blank (.grow chunk)) input).state.pc = 255 := by
  have hideal {j : Nat} (hj : j ≤ 256) := Endless.run_rights hinstrs input hj
  have hfault : (run program 256 (State.blank (.grow chunk)) input).fault = some (.room e) := by
    rw [run_grow_fault_iff program hpos]
    exact ⟨e, rfl, hroom, 256, Nat.le_refl _, by rw [hideal (Nat.le_refl _)]⟩
  refine ⟨hfault, ?_⟩
  rw [run_succ] at hfault ⊢
  rcases run_grow_cases program hpos input 255 with ⟨store, k, hstands, _⟩ | ⟨e, _, _, hpeak⟩
  · rcases hstands.next_step (show (Policy.grow chunk).Positive from hpos)
      (fun action _ => store.clear_grow _ action) with ⟨next, hnext, _⟩ | ⟨_, _, _, _, _, hpc, _⟩
    · rw [hnext.fault] at hfault
      cases hfault
    · rw [hpc, hideal (by omega)]
      rfl
  · obtain ⟨j, hj, hptr⟩ := (le_peak_iff program _ 255 256).mp hpeak
    rw [hideal (by omega)] at hptr
    have hptr : 256 ≤ j := hptr
    omega

/-! ## The growing tape and the endless one -/

/-- **A growing tape is an endless one.** After any number of steps from a fresh tape, or at the halt before
them, the machine is where the endless machine is, with the same output and the same input left. Its cells are
those of the endless tape, which is zero beyond them, and their number is that of the first cells and the fewest
chunks that hold the largest pointer so far. The only thing that can go wrong is that the pointer leaves the first
cells and a chunk cannot be had. So runs with different chunks differ in nothing but the lengths of their tapes. -/
theorem run_grow_follows_endless [Host] (program : Program) {chunk : Int} (hpos : 1 ≤ chunk) (input : σ) :
    State.fresh (.grow chunk) = .ok (State.blank (.grow chunk))
    ∧ (∀ n : Nat,
      ((run program n (State.blank (.grow chunk)) input).fault = none →
        (run program n (State.blank (.grow chunk)) input).Follows ((Endless.blank input).run program n)
        ∧ ∃ peak k : Nat,
          IsGreatest {p | ∃ j ≤ n, ((Endless.blank input).run program j).ptr = p} peak
          ∧ IsLeast {k : Nat | (peak : Int) < 256 + chunk * k} k
          ∧ ((run program n (State.blank (.grow chunk)) input).state.cells.size : Int) = 256 + chunk * k)
      ∧ ∀ e, (run program n (State.blank (.grow chunk)) input).fault = some e
        ↔ ∃ room, e = .room room ∧ cellCount chunk = .error room
          ∧ ∃ j ≤ n, 256 ≤ ((Endless.blank input).run program j).ptr)
    ∧ ∀ other : Int, 1 ≤ other → ∀ n : Nat,
      (run program n (State.blank (.grow chunk)) input).fault = none →
      (run program n (State.blank (.grow other)) input).fault = none →
      (run program n (State.blank (.grow chunk)) input).Agrees
        (run program n (State.blank (.grow other)) input) := by
  refine ⟨rfl, fun n => ⟨?_, run_grow_fault_iff program hpos input n⟩, ?_⟩
  · intro hfault
    refine ⟨follows_of_run_grow program hpos input hfault, ?_⟩
    rcases run_grow_cases program hpos input n with ⟨store, k, hstands, hchunked⟩ | ⟨e, _, hfault', _⟩
    · refine ⟨_, k, Endless.isGreatest_peak program n _, hchunked.least, ?_⟩
      rw [hstands.state]
      exact hchunked.size
    · rw [hfault'] at hfault
      cases hfault
  · intro other hother n hfault hfault'
    exact (follows_of_run_grow program hpos input hfault).agrees
      (follows_of_run_grow program hother input hfault')

open scoped Host in
/-- Chunks whose number is no word cannot be had: the step that leaves the first cells fails, and the machine
stays behind the endless one. -/
theorem run_grow_uncountable :
    ∃ program : Program, program.instrs.toList = List.replicate 256 .right
      ∧ (1 : Int) ≤ 9223372036854775808
      ∧ (run program 256 (State.blank (.grow 9223372036854775808)) Input.empty).fault
        = some (.room .uncountable)
      ∧ ¬ (run program 256 (State.blank (.grow 9223372036854775808)) Input.empty).Follows
        ((Endless.blank Input.empty).run program 256) := by
  obtain ⟨program, _, hinstrs⟩ := Program.exists_ofInstrs (isBalanced_rights 256)
  have hpos : (1 : Int) ≤ 9223372036854775808 := by decide
  obtain ⟨hfault, hpc⟩ := run_grow_rights_fails hinstrs hpos (e := .uncountable) (by decide) Input.empty
  refine ⟨program, hinstrs, hpos, hfault, ?_⟩
  intro hfollows
  have hpc' := hfollows.pc
  rw [hpc, Endless.run_rights hinstrs Input.empty (Nat.le_refl _)] at hpc'
  exact absurd hpc' (by decide)

open scoped Host in
/-- With chunks of three cells a pointer that has come to cell 260 has made a tape of two chunks. -/
theorem run_grow_follows_endless_twice :
    (1 : Int) ≤ 3 ∧ ∃ program : Program, program.instrs.toList = List.replicate 260 .right
      ∧ (run program 260 (State.blank (.grow 3)) Input.empty).fault = none
      ∧ (run program 260 (State.blank (.grow 3)) Input.empty).state.ptr = 260
      ∧ (run program 260 (State.blank (.grow 3)) Input.empty).state.cells.size = 262 := by
  obtain ⟨program, _, hinstrs⟩ := Program.exists_ofInstrs (isBalanced_rights 260)
  have hpos : (1 : Int) ≤ 3 := by decide
  have hideal {j : Nat} := @Endless.run_rights _ _ program 260 j hinstrs Input.empty
  obtain ⟨_, hall, _⟩ := run_grow_follows_endless program hpos Input.empty
  obtain ⟨hok, hfails⟩ := hall 260
  have hfault : (run program 260 (State.blank (.grow 3)) Input.empty).fault = none := by
    rw [Option.eq_none_iff_forall_ne_some]
    intro e he
    obtain ⟨room, _, hroom, _⟩ := (hfails e).mp he
    rw [show cellCount 3 = .ok 3 by decide] at hroom
    cases hroom
  obtain ⟨hfollows, peak, k, ⟨⟨i, hi, hptr⟩, hupper⟩, ⟨hmem, hleast⟩, hsize⟩ := hok hfault
  have hpeak : 260 ≤ peak := hupper ⟨260, Nat.le_refl _, by rw [hideal (Nat.le_refl _)]⟩
  rw [hideal hi] at hptr
  have hpeak' : i = peak := hptr
  have hk : k ≤ 2 := hleast (show (peak : Int) < 256 + 3 * (2 : Nat) by omega)
  have hk' : (peak : Int) < 256 + 3 * k := hmem
  refine ⟨hpos, program, hinstrs, hfault, ?_, by omega⟩
  rw [hfollows.ptr, hideal (Nat.le_refl _)]
  rfl

end ProgramArt.Tape
