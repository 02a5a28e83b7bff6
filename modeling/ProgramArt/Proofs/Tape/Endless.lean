import Mathlib.Order.Bounds.Basic
import ProgramArt.Proofs.Tape.Invariant
import ProgramArt.Tape.Run

/-!
# The machine on an endless tape

The plainest machine, `Endless`, has a tape without a right end: all cells are there from the start, they are zero at
first, and a move to the left of the first cell stays where it is. A real machine shows this one as long as its own
moves do not go around a ring: whatever the cells that it has, they are the cells of the endless tape, and the rest of
the endless tape is zero (`Shows`). `Stands.next_step` keeps this up for one more step of a run.
-/

namespace ProgramArt.Tape

variable {σ : Type}

/-! ## Longer runs -/

section Runs

variable {α : Type} [Cell α] [DecidableEq α] [Source σ] {program : Program}

/-- A run that may take one more step: it does, unless it has failed or halted. -/
def Outcome.next [Host] (program : Program) (outcome : Outcome σ α) : Outcome σ α :=
  if outcome.fault.isSome || outcome.state.halted program then outcome
  else
    match step program outcome.state outcome.input with
    | (.ok state, rest) => ⟨state, rest, outcome.steps + 1, none⟩
    | (.error fault, rest) => ⟨fault.state, rest, outcome.steps, some fault.error⟩

theorem Outcome.next_of_fault [Host] {outcome : Outcome σ α} (h : outcome.fault ≠ none) :
    outcome.next program = outcome := by
  have hsome : outcome.fault.isSome = true := Option.isSome_iff_ne_none.mpr h
  rw [Outcome.next, hsome, Bool.true_or, if_pos rfl]

theorem Outcome.next_of_halted [Host] {outcome : Outcome σ α} (h : outcome.state.halted program = true) :
    outcome.next program = outcome := by
  rw [Outcome.next, h, Bool.or_true, if_pos rfl]

/-- One more step for a run is one more at its end. -/
theorem runFrom_succ [Host] (taken budget : Nat) (state : State α) (input : σ) :
    runFrom program taken (budget + 1) state input
      = (runFrom program taken budget state input).next program := by
  induction budget generalizing taken state input with
  | zero =>
      rw [runFrom, runFrom]
      by_cases hhalted : state.halted program = true
      · rw [if_pos hhalted, Outcome.next_of_halted hhalted]
      · rw [if_neg hhalted, Outcome.next, if_neg (by simpa using hhalted)]
        dsimp only
        split <;> simp only [runFrom, *]
  | succ budget ih =>
      -- the first step is the same in both runs, and what follows it is shorter by one
      rw [runFrom]
      by_cases hhalted : state.halted program = true
      · rw [if_pos hhalted, runFrom, if_pos hhalted, Outcome.next_of_halted hhalted]
      · rw [if_neg hhalted, runFrom, if_neg hhalted]
        split
        · exact ih _ _ _
        · rw [Outcome.next_of_fault (by simp)]

/-- **A longer run goes on where the shorter one ended.** -/
theorem run_succ [Host] (program : Program) (budget : Nat) (state : State α) (input : σ) :
    run program (budget + 1) state input = (run program budget state input).next program :=
  runFrom_succ 0 budget state input

end Runs

/-! ## The machine -/

/-- A machine on a tape without a right end. -/
structure Endless (σ : Type) where
  /-- Position of the next instruction. -/
  pc : Nat
  /-- Position of the cell that instructions act on. -/
  ptr : Nat
  /-- The tape, cell by cell. -/
  cells : Nat → Int8
  /-- The values written so far, oldest first. -/
  output : Array Int8
  /-- The input that is left. -/
  input : σ

namespace Endless

/-- All cells are zero at first. -/
def blank (input : σ) : Endless σ := ⟨0, 0, fun _ => 0, #[], input⟩

/-- The cell under the pointer. -/
def cell (machine : Endless σ) : Int8 := machine.cells machine.ptr

/-- Replace the cell under the pointer. -/
def put (machine : Endless σ) (value : Int8) : Endless σ :=
  { machine with cells := fun i => if i = machine.ptr then value else machine.cells i }

/-- The place behind the partner of the bracket at `pc`. -/
def pastPartner (program : Program) (pc : Nat) : Nat := (program.partner? pc).getD pc + 1

variable [Source σ]

/-- What an action does. The first cell has no cell to its left, and every cell has one to its right. -/
def act (machine : Endless σ) : Action → Endless σ
  | .inc => machine.put (machine.cell + 1)
  | .dec => machine.put (machine.cell - 1)
  | .left => { machine with ptr := machine.ptr - 1 }
  | .right => { machine with ptr := machine.ptr + 1 }
  | .read =>
    let (value, rest) := Source.next machine.input
    { machine.put (Int8.ofInt (value.getD 0)) with input := rest }
  | .write => { machine with output := machine.output.push machine.cell }

/-- Execute one instruction. A machine at the end of its program stays there. -/
def step (program : Program) (machine : Endless σ) : Endless σ :=
  match program.instrs.toList[machine.pc]? with
  | none => machine
  | some .enter =>
    { machine with pc := if machine.cell = 0 then pastPartner program machine.pc else machine.pc + 1 }
  | some .leave =>
    { machine with pc := if machine.cell = 0 then machine.pc + 1 else pastPartner program machine.pc }
  | some .inc => { machine.act .inc with pc := machine.pc + 1 }
  | some .dec => { machine.act .dec with pc := machine.pc + 1 }
  | some .left => { machine.act .left with pc := machine.pc + 1 }
  | some .right => { machine.act .right with pc := machine.pc + 1 }
  | some .read => { machine.act .read with pc := machine.pc + 1 }
  | some .write => { machine.act .write with pc := machine.pc + 1 }

/-- Execute so many instructions, or all that there are. -/
def run (program : Program) : (n : Nat) → Endless σ → Endless σ
  | 0, machine => machine
  | n + 1, machine => (run program n machine).step program

/-- The largest pointer within the first `n` steps. -/
def peak (program : Program) : (n : Nat) → Endless σ → Nat
  | 0, machine => machine.ptr
  | n + 1, machine => max (peak program n machine) (run program (n + 1) machine).ptr

variable {program : Program} {machine : Endless σ}

theorem step_of_end (h : program.size ≤ machine.pc) : machine.step program = machine := by
  have hnone : program.instrs.toList[machine.pc]? = none := List.getElem?_eq_none h
  rw [step, hnone]

/-- An opening bracket of the endless machine. -/
theorem step_enter (h : program.instrs.toList[machine.pc]? = some .enter) :
    machine.step program
      = { machine with
          pc := if machine.cell = 0 then pastPartner program machine.pc else machine.pc + 1 } := by
  rw [step, h]

theorem step_leave (h : program.instrs.toList[machine.pc]? = some .leave) :
    machine.step program
      = { machine with
          pc := if machine.cell = 0 then machine.pc + 1 else pastPartner program machine.pc } := by
  rw [step, h]

/-- An action of the endless machine. -/
theorem step_act {action : Action} (h : program.instrs.toList[machine.pc]? = some action.instr) :
    machine.step program = { machine.act action with pc := machine.pc + 1 } := by
  rw [step, h]
  cases action <;> rfl

/-- The place behind the partner of a bracket. -/
theorem pastPartner_eq {pc target : Nat} (h : program.partner? pc = some target) :
    pastPartner program pc = target + 1 := by
  rw [pastPartner, h, Option.getD_some]

/-- The peak is the largest pointer so far. -/
theorem isGreatest_peak (program : Program) (n : Nat) (machine : Endless σ) :
    IsGreatest {p | ∃ j ≤ n, (machine.run program j).ptr = p} (machine.peak program n) := by
  induction n with
  | zero =>
      refine ⟨⟨0, Nat.le_refl 0, rfl⟩, ?_⟩
      rintro p ⟨j, hj, rfl⟩
      obtain rfl : j = 0 := Nat.le_zero.mp hj
      exact Nat.le_refl _
  | succ n ih =>
      obtain ⟨⟨j, hj, hptr⟩, hupper⟩ := ih
      refine ⟨?_, ?_⟩
      · rcases Nat.le_total (machine.peak program n) (machine.run program (n + 1)).ptr with hle | hle
        · exact ⟨n + 1, Nat.le_refl _, (Nat.max_eq_right hle).symm⟩
        · exact ⟨j, Nat.le_succ_of_le hj, hptr.trans (Nat.max_eq_left hle).symm⟩
      · rintro p ⟨i, hi, rfl⟩
        rcases Nat.le_or_eq_of_le_succ hi with hi | rfl
        · exact Nat.le_trans (hupper ⟨i, hi, rfl⟩) (Nat.le_max_left _ _)
        · exact Nat.le_max_right _ _

end Endless

/-! ## Stores that show an endless machine -/

/-- The store has the pointer, the output and the input of the endless machine. Its cells are those of the
endless tape, which is zero from there on. -/
structure Shows (store : Store σ) (machine : Endless σ) : Prop where
  ptr : store.ptr = machine.ptr
  cells : ∀ i, store.cells.getD i 0 = machine.cells i
  output : store.output = machine.output
  input : store.input = machine.input

/-- The action does not go around a ring. -/
def Store.Clear (policy : Policy) (action : Action) (store : Store σ) : Prop :=
  match policy, action with
  | .ring _, .left => store.ptr ≠ 0
  | .ring _, .right => store.ptr + 1 ≠ store.cells.size
  | _, _ => True

/-- Every action is clear on a growing tape, which has no joint. -/
theorem Store.clear_grow (chunk : Int) (action : Action) (store : Store σ) :
    store.Clear (.grow chunk) action := by
  cases action <;> trivial

/-- How a step changes the length of a tape: not at all, or by a chunk for a pointer that has just left it. -/
def Store.Growth [Host] (policy : Policy) (store next : Store σ) : Prop :=
  (next.cells.size = store.cells.size ∧ next.ptr < store.cells.size)
  ∨ ∃ chunk count, policy = .grow chunk ∧ cellCount chunk = .ok count
    ∧ next.ptr = store.cells.size ∧ next.cells.size = store.cells.size + count

namespace Shows

variable {store next : Store σ} {machine : Endless σ} {policy : Policy}

theorem cell (h : Shows store machine) : store.cell = machine.cell := by
  rw [Store.cell, h.cells, h.ptr]
  rfl

theorem put (h : Shows store machine) (hlt : store.ptr < store.cells.size) (value : Int8) :
    Shows (store.put value) (machine.put value) := by
  refine ⟨h.ptr, ?_, h.output, h.input⟩
  intro i
  have hcells := h.cells i
  simp only [Store.put, Endless.put, ← h.ptr, Array.getD_eq_getD_getElem?,
    Array.getElem?_setIfInBounds] at hcells ⊢
  by_cases hi : store.ptr = i
  · subst hi
    simp [hlt]
  · have hne : i ≠ store.ptr := fun heq => hi heq.symm
    rw [if_neg hi, if_neg hne]
    exact hcells

/-- New cells at the right end show nothing new. -/
theorem extend (h : Shows store machine) (count : Nat) :
    Shows { store with cells := store.cells ++ Array.replicate count (0 : Int8) } machine := by
  refine ⟨h.ptr, ?_, h.output, h.input⟩
  intro i
  rw [← h.cells i]
  simp only [Array.getD_eq_getD_getElem?, Array.getElem?_append, Array.getElem?_replicate]
  by_cases hi : i < store.cells.size
  · rw [if_pos hi]
  · rw [if_neg hi, Array.getElem?_eq_none (Nat.le_of_not_lt hi)]
    split <;> rfl

theorem move (h : Shows store machine) {ptr ptr' : Nat} (heq : ptr = ptr') :
    Shows { store with ptr := ptr } { machine with ptr := ptr' } :=
  ⟨heq, h.cells, h.output, h.input⟩

variable [Source σ]

/-- The moves of a tape that is not gone around lead to the same cells as those of an endless tape. -/
theorem right [Host] (h : Shows store machine) (hin : store.InTape policy) (hclear : store.Clear policy .right)
    (happly : store.right policy = .ok next) :
    Shows next (machine.act .right) ∧ Store.Growth policy store next := by
  have hlt := hin.lt
  have hptr : store.ptr + 1 = machine.ptr + 1 := by rw [h.ptr]
  cases policy with
  | ring modulus =>
      have hinside : store.ptr + 1 ≠ store.cells.size := hclear
      rw [Store.right, if_neg hinside] at happly
      injection happly with happly
      subst happly
      refine ⟨h.move hptr, .inl ⟨rfl, ?_⟩⟩
      show store.ptr + 1 < store.cells.size
      omega
  | grow chunk =>
      obtain ⟨hroom, rfl⟩ | ⟨hend, count, hcount, rfl⟩ := Store.right_grow_of_ok happly
      · exact ⟨h.move hptr, .inl ⟨rfl, hroom⟩⟩
      · refine ⟨(h.extend count).move hptr, .inr ⟨chunk, count, rfl, hcount, ?_, ?_⟩⟩
        · show store.ptr + 1 = store.cells.size
          omega
        · simp only [Array.size_append, Array.size_replicate]

theorem left [Host] (h : Shows store machine) (hin : store.InTape policy) (hclear : store.Clear policy .left) :
    Shows (store.left policy) (machine.act .left) ∧ Store.Growth policy store (store.left policy) := by
  have hlt := hin.lt
  have hptr : store.ptr - 1 = machine.ptr - 1 := by rw [h.ptr]
  cases policy with
  | ring modulus =>
      have hinside : store.ptr ≠ 0 := hclear
      rw [Store.left, if_neg hinside]
      exact ⟨h.move hptr, .inl ⟨rfl, Nat.lt_of_le_of_lt (Nat.sub_le _ _) hlt⟩⟩
  | grow chunk => exact ⟨h.move hptr, .inl ⟨rfl, Nat.lt_of_le_of_lt (Nat.sub_le _ _) hlt⟩⟩

/-- **An action of a store that shows an endless machine** does the same to both, unless it goes around a
ring. -/
theorem act [Host] {action : Action} (h : Shows store machine) (hin : store.InTape policy)
    (hclear : store.Clear policy action) (happly : action.apply policy store = .ok next) :
    Shows next (machine.act action) ∧ Store.Growth policy store next := by
  have hstays (value : Int8) : Store.Growth policy store (store.put value) :=
    .inl ⟨by simp [Store.put], hin.lt⟩
  cases action with
  | inc =>
      injection happly with happly
      subst happly
      refine ⟨?_, hstays _⟩
      rw [h.cell]
      exact h.put hin.lt _
  | dec =>
      injection happly with happly
      subst happly
      refine ⟨?_, hstays _⟩
      rw [h.cell]
      exact h.put hin.lt _
  | left =>
      injection happly with happly
      subst happly
      exact h.left hin hclear
  | right => exact h.right hin hclear happly
  | read =>
      injection happly with happly
      subst happly
      refine ⟨⟨h.ptr, ?_, h.output, ?_⟩, hstays _⟩
      · show ∀ i, (store.put (Int8.ofInt ((Source.next store.input).1.getD 0))).cells.getD i 0
          = (machine.put (Int8.ofInt ((Source.next machine.input).1.getD 0))).cells i
        rw [h.input]
        exact (h.put hin.lt _).cells
      · show (Source.next store.input).2 = (Source.next machine.input).2
        rw [h.input]
  | write =>
      injection happly with happly
      subst happly
      refine ⟨⟨h.ptr, h.cells, ?_, h.input⟩, .inl ⟨rfl, hin.lt⟩⟩
      rw [h.output, h.cell]
      rfl

/-- An action that finds no room would have left the tape. -/
theorem act_room [Host] {action : Action} {e : RoomError} (h : Shows store machine) (hin : store.InTape policy)
    (happly : action.apply policy store = .error e) : (machine.act action).ptr = store.cells.size := by
  have hlt := hin.lt
  cases action with
  | right =>
      cases policy with
      | ring modulus => exact absurd happly (by simp [Action.apply, Store.right])
      | grow chunk =>
          have hend := (Store.right_grow_of_error happly).1
          show machine.ptr + 1 = store.cells.size
          rw [← h.ptr]
          omega
  | inc | dec | left | read | write => exact absurd happly (by simp [Action.apply])

end Shows

/-! ## Runs that show an endless machine -/

/-- A run has come without failure to a place of the program, with a store that shows the endless machine
at the same place. -/
structure Stands (program : Program) (policy : Policy) (outcome : Outcome σ) (store : Store σ)
    (machine : Endless σ) : Prop where
  fault : outcome.fault = none
  place : (outcome.state, outcome.input) = store.place policy machine.pc
  pc : machine.pc ≤ program.size
  inTape : store.InTape policy
  shows : Shows store machine

namespace Stands

variable {program : Program} {policy : Policy} {outcome : Outcome σ} {store next : Store σ}
  {machine : Endless σ}

theorem state (h : Stands program policy outcome store machine) :
    outcome.state = (store.place policy machine.pc).1 := congrArg Prod.fst h.place

theorem input (h : Stands program policy outcome store machine) : outcome.input = store.input :=
  congrArg Prod.snd h.place

variable [Source σ]

/-- A fresh tape shows the blank endless one. -/
theorem blank [Host] (program : Program) (hpos : policy.Positive) (input : σ) :
    Stands program policy (run program 0 (State.blank policy) input)
      (.ofState (State.blank policy) input) (.blank input) := by
  refine ⟨rfl, (Store.place_ofState rfl (Int.le_refl 0) input).symm, Nat.zero_le _,
    Store.inTape_ofState (sound_blank hpos) input, rfl, ?_, rfl, rfl⟩
  intro i
  simp only [Store.ofState, State.blank, Array.getD_eq_getD_getElem?, Array.getElem?_replicate,
    Endless.blank]
  split <;> rfl

/-- A run that stands before the end of the program goes on with a step from its store. -/
theorem next_eq [Host] (h : Stands program policy outcome store machine) (hlt : machine.pc < program.size) :
    outcome.next program
      = match step program (store.place policy machine.pc).1 (store.place policy machine.pc).2 with
        | (.ok state, rest) => ⟨state, rest, outcome.steps + 1, none⟩
        | (.error fault, rest) => ⟨fault.state, rest, outcome.steps, some fault.error⟩ := by
  have hrunning : (outcome.fault.isSome || outcome.state.halted program) = false := by
    rw [h.fault, h.state, Store.halted_place hlt]
    rfl
  rw [Outcome.next, hrunning, if_neg (by simp), h.state, h.input]
  change _ = match step program (store.place policy machine.pc).1 store.input with
    | (.ok state, rest) => (⟨state, rest, outcome.steps + 1, none⟩ : Outcome σ)
    | (.error fault, rest) => ⟨fault.state, rest, outcome.steps, some fault.error⟩
  rcases step program (store.place policy machine.pc).1 store.input with ⟨_ | _, _⟩ <;> rfl

/-- A step from one place to another, at which the store shows what the endless machine has become. -/
theorem stepped [Host] (h : Stands program policy outcome store machine) (hlt : machine.pc < program.size)
    {machine' : Endless σ}
    (hstep : step program (store.place policy machine.pc).1 (store.place policy machine.pc).2
      = (.ok (next.place policy machine'.pc).1, next.input))
    (hpc : machine'.pc ≤ program.size) (hin : next.InTape policy) (hshows : Shows next machine') :
    Stands program policy (outcome.next program) next machine' := by
  refine ⟨?_, ?_, hpc, hin, hshows⟩
  · rw [h.next_eq hlt, hstep]
  · rw [h.next_eq hlt, hstep]
    rfl

/-- A bracket changes nothing but the place in the program. -/
theorem jumped [Host] (h : Stands program policy outcome store machine) (hlt : machine.pc < program.size) {pc : Nat}
    (hstep : step program (store.place policy machine.pc).1 (store.place policy machine.pc).2
      = (.ok (store.place policy pc).1, store.input))
    (hpc : pc ≤ program.size) (hmachine : machine.step program = { machine with pc := pc }) :
    Stands program policy (outcome.next program) store (machine.step program) := by
  have hshows := h.shows
  rw [hmachine]
  exact h.stepped hlt hstep hpc h.inTape ⟨hshows.ptr, hshows.cells, hshows.output, hshows.input⟩

/-- **One more step of a run that shows an endless machine.** Both machines take it together, unless the
tape has to grow by cells that cannot be had. -/
theorem next_step [Host] (hpos : policy.Positive) (h : Stands program policy outcome store machine)
    (hclear : ∀ action : Action, program.instrs.toList[machine.pc]? = some action.instr →
      store.Clear policy action) :
    (∃ next, Stands program policy (outcome.next program) next (machine.step program)
      ∧ Store.Growth policy store next)
    ∨ ∃ chunk e, policy = .grow chunk ∧ cellCount chunk = .error e
      ∧ (outcome.next program).fault = some (.room e) ∧ (outcome.next program).state.pc = machine.pc
      ∧ (machine.step program).ptr = store.cells.size := by
  have hin := h.inTape
  have hstays : Store.Growth policy store store := .inl ⟨rfl, hin.lt⟩
  rcases Nat.lt_or_eq_of_le h.pc with hlt | hend
  · obtain ⟨instr, hget⟩ : ∃ instr, program.instrs.toList[machine.pc]? = some instr :=
      ⟨_, List.getElem?_eq_getElem hlt⟩
    obtain rfl | rfl | ⟨action, rfl⟩ := instr.kinds
    · obtain ⟨target, hjump, htarget⟩ := Program.exists_partner hget rfl
      refine .inl ⟨store, h.jumped hlt (step_enter hget hin hjump) ?_ ?_, hstays⟩
      · split <;> omega
      · rw [Endless.step_enter hget, Endless.pastPartner_eq hjump, h.shows.cell]
    · obtain ⟨target, hjump, htarget⟩ := Program.exists_partner hget rfl
      refine .inl ⟨store, h.jumped hlt (step_leave hget hin hjump) ?_ ?_, hstays⟩
      · split <;> omega
      · rw [Endless.step_leave hget, Endless.pastPartner_eq hjump, h.shows.cell]
    · rw [Endless.step_act hget]
      cases hact : action.apply policy store with
      | ok next =>
          obtain ⟨hshows, hgrowth⟩ := h.shows.act hin (hclear action hget) hact
          refine .inl ⟨next, h.stepped hlt (step_act hget hin hact) hlt (hin.apply hpos hact).1 ?_, hgrowth⟩
          exact ⟨hshows.ptr, hshows.cells, hshows.output, hshows.input⟩
      | error e =>
          obtain ⟨chunk, hgrow, hcount⟩ := Store.policy_of_apply_error hact
          refine .inr ⟨chunk, e, hgrow, hcount, ?_, ?_, h.shows.act_room hin hact⟩
          · rw [h.next_eq hlt, step_act_room hget hact]
          · rw [h.next_eq hlt, step_act_room hget hact]
            rfl
  · -- at the end of the program both machines stay where they are
    have hhalted : outcome.state.halted program = true := by
      rw [h.state, hend]
      exact Store.halted_place_size policy store program
    rw [Outcome.next_of_halted hhalted, Endless.step_of_end (Nat.le_of_eq hend.symm)]
    exact .inl ⟨store, h, hstays⟩

end Stands

end ProgramArt.Tape
