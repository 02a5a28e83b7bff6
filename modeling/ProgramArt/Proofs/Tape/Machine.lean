import ProgramArt.Proofs.Tape.Matching
import ProgramArt.Tape.State

/-!
# One step of the tape machine

A step of the machine is an action on what the program works on, a `Store`, or a jump. `Action.apply` says what the
actions do without a program pointer, and a step from a state whose pointer is in its tape does exactly that
(`step_act`, `step_enter`, `step_leave`). A map of states that the instructions respect is respected by all steps
(`step_map`).
-/

namespace ProgramArt.Tape

variable {σ : Type}

/-! ## Cells -/

/-- `wrapCell` is the balanced remainder by 256. -/
theorem wrapCell_eq_bmod (n : Int) : wrapCell n = n.bmod 256 := by
  rw [wrapCell, Int.bmod_def]
  split <;> omega

/-- A signed byte does not notice whether its number was wrapped. -/
theorem ofInt_wrapCell (n : Int) : Int8.ofInt (wrapCell n) = Int8.ofInt n := by
  rw [← Int8.toInt_inj, Int8.toInt_ofInt, Int8.toInt_ofInt, wrapCell_eq_bmod, Int.bmod_bmod]

namespace Cell

@[simp]
theorem zero_int8 : (zero : Int8) = 0 := rfl

@[simp]
theorem ofInt_int8 (n : Int) : (ofInt n : Int8) = Int8.ofInt n := ofInt_wrapCell n

/-- On signed bytes `succ` is the sum of bytes, which goes around by itself. -/
@[simp]
theorem succ_int8 (cell : Int8) : succ cell = cell + 1 := by
  rw [succ, ofInt_int8, show (toInt cell + 1 : Int) = cell.toInt + (1 : Int8).toInt from rfl, Int8.ofInt_add,
    Int8.ofInt_toInt, Int8.ofInt_toInt]

@[simp]
theorem pred_int8 (cell : Int8) : pred cell = cell - 1 := by
  rw [pred, ofInt_int8, show (toInt cell - 1 : Int) = cell.toInt - (1 : Int8).toInt from rfl, Int8.ofInt_sub,
    Int8.ofInt_toInt, Int8.ofInt_toInt]

end Cell

/-! ## Stores -/

/-- What a program works on: the tape, the place of the pointer, the output so far and the input that is
left. -/
structure Store (σ : Type) where
  cells : Array Int8
  ptr : Nat
  output : Array Int8
  input : σ

/-- The policies that can have a tape: a ring has cells, and a growing tape grows. -/
def Policy.Positive : Policy → Prop
  | .ring modulus => 1 ≤ modulus
  | .grow chunk => 1 ≤ chunk

instance (policy : Policy) : Decidable policy.Positive :=
  match policy with
  | .ring modulus => inferInstanceAs (Decidable (1 ≤ modulus))
  | .grow chunk => inferInstanceAs (Decidable (1 ≤ chunk))

/-- A state whose pointer is in its tape, under a policy that can have one. -/
structure State.Sound (state : State) : Prop where
  positive : state.policy.Positive
  nonneg : 0 ≤ state.ptr
  lt : state.ptr < state.cells.size
  ring : ∀ modulus, state.policy = .ring modulus → (state.cells.size : Int) = modulus

/-- New cells are asked for by their number. -/
theorem cellCount_pos [Host] {chunk : Int} {count : Nat} (hpos : 1 ≤ chunk) (h : cellCount chunk = .ok count) :
    0 < count := by
  simp only [cellCount] at h
  split at h
  · exact absurd h (by simp)
  · split at h
    · exact absurd h (by simp)
    · injection h with h
      omega

namespace Store

/-- The cell under the pointer. -/
def cell (store : Store σ) : Int8 :=
  store.cells.getD store.ptr 0

/-- Replace the cell under the pointer. -/
def put (store : Store σ) (value : Int8) : Store σ :=
  { store with cells := store.cells.setIfInBounds store.ptr value }

/-- Move the pointer to the left: around the ring, or not at all at the end of a growing tape. -/
def left (policy : Policy) (store : Store σ) : Store σ :=
  match policy with
  | .ring _ => { store with ptr := if store.ptr = 0 then store.cells.size - 1 else store.ptr - 1 }
  | .grow _ => { store with ptr := store.ptr - 1 }

/-- Move the pointer to the right: around the ring, or onto new cells at the end of a growing tape, if
they can be had. -/
def right [Host] (policy : Policy) (store : Store σ) : Except RoomError (Store σ) :=
  match policy with
  | .ring _ =>
    .ok { store with ptr := if store.ptr + 1 = store.cells.size then 0 else store.ptr + 1 }
  | .grow chunk =>
    if store.ptr + 1 < store.cells.size then .ok { store with ptr := store.ptr + 1 }
    else (cellCount chunk).map fun count =>
      { store with ptr := store.ptr + 1, cells := store.cells ++ Array.replicate count (0 : Int8) }

/-- The pointer is in the tape, and a ring has all its cells. -/
structure InTape (policy : Policy) (store : Store σ) : Prop where
  lt : store.ptr < store.cells.size
  ring : ∀ modulus, policy = .ring modulus → (store.cells.size : Int) = modulus

end Store

/-- `later` comes after `store`: nothing of the output is taken back, and no cell is given up. -/
structure Store.Extends (store later : Store σ) : Prop where
  output : store.output.toList <+: later.output.toList
  cells : store.cells.size ≤ later.cells.size

namespace Store

theorem Extends.refl (store : Store σ) : store.Extends store :=
  ⟨List.prefix_rfl, Nat.le_refl _⟩

theorem Extends.trans {a b c : Store σ} (hab : a.Extends b) (hbc : b.Extends c) : a.Extends c :=
  ⟨hab.output.trans hbc.output, Nat.le_trans hab.cells hbc.cells⟩

/-- A growing tape has a cell to the right already, or gets it with the cells that are added. -/
theorem right_grow_of_ok [Host] {chunk : Int} {store next : Store σ} (h : store.right (.grow chunk) = .ok next) :
    (store.ptr + 1 < store.cells.size ∧ next = { store with ptr := store.ptr + 1 }) ∨
    (store.cells.size ≤ store.ptr + 1 ∧ ∃ count, cellCount chunk = .ok count ∧
      next = { store with
        ptr := store.ptr + 1, cells := store.cells ++ Array.replicate count (0 : Int8) }) := by
  simp only [Store.right] at h
  split at h
  · rename_i hroom
    injection h with h
    exact .inl ⟨hroom, h.symm⟩
  · rename_i hend
    cases hcount : cellCount chunk with
    | error e =>
        rw [hcount] at h
        exact absurd h (by simp [Except.map])
    | ok count =>
        rw [hcount] at h
        injection h with h
        exact .inr ⟨by omega, count, rfl, h.symm⟩

/-- A growing tape fails only at its end, if there is no room for one more chunk. -/
theorem right_grow_of_error [Host] {chunk : Int} {store : Store σ} {e : RoomError}
    (h : store.right (.grow chunk) = .error e) :
    store.cells.size ≤ store.ptr + 1 ∧ cellCount chunk = .error e := by
  simp only [Store.right] at h
  split at h
  · exact absurd h (by simp)
  · rename_i hend
    cases hcount : cellCount chunk with
    | error e' =>
        rw [hcount] at h
        injection h with h
        exact ⟨by omega, by rw [h]⟩
    | ok count =>
        rw [hcount] at h
        exact absurd h (by simp [Except.map])

/-- Storing a cell leaves the pointer in its tape. -/
theorem InTape.put {policy : Policy} {store : Store σ} (hin : store.InTape policy) (value : Int8) :
    (store.put value).InTape policy := by
  refine ⟨?_, ?_⟩
  · simpa [Store.put] using hin.lt
  · simpa [Store.put] using hin.ring

theorem InTape.left {policy : Policy} {store : Store σ} (hin : store.InTape policy) :
    (store.left policy).InTape policy := by
  obtain ⟨hlt, hring⟩ := hin
  cases policy with
  | ring modulus =>
      refine ⟨?_, hring⟩
      simp only [Store.left]
      split <;> omega
  | grow chunk =>
      refine ⟨?_, hring⟩
      simp only [Store.left]
      omega

/-- A move to the right stays in the tape, which is extended if it has to be. -/
theorem InTape.right [Host] {policy : Policy} {store next : Store σ} (hpos : policy.Positive)
    (hin : store.InTape policy) (h : store.right policy = .ok next) :
    next.InTape policy ∧ store.Extends next := by
  obtain ⟨hlt, hring⟩ := hin
  cases policy with
  | ring modulus =>
      simp only [Store.right, Except.ok.injEq] at h
      subst h
      refine ⟨⟨?_, hring⟩, List.prefix_rfl, Nat.le_refl _⟩
      dsimp only
      split <;> omega
  | grow chunk =>
      obtain ⟨hroom, rfl⟩ | ⟨hend, count, hcount, rfl⟩ := right_grow_of_ok h
      · exact ⟨⟨hroom, hring⟩, List.prefix_rfl, Nat.le_refl _⟩
      · have hnew : 0 < count := cellCount_pos hpos hcount
        refine ⟨⟨?_, ?_⟩, List.prefix_rfl, ?_⟩
        · simp only [Array.size_append, Array.size_replicate]
          omega
        · intro modulus hmod
          exact absurd hmod (by simp)
        · simp only [Array.size_append]
          omega

end Store

/-! ## The machine at a place of the program -/

namespace Store

/-- The machine with a store, about to execute the instruction at `pc`. -/
def place (policy : Policy) (pc : Nat) (store : Store σ) : State × σ :=
  (⟨pc, store.ptr, store.cells, policy, store.output⟩, store.input)

variable {policy : Policy} {store : Store σ}

/-- A machine whose pointer is in its tape loads the cell of its store. -/
theorem load_place (hin : store.InTape policy) (pc : Nat) :
    (store.place policy pc).1.load = .ok store.cell := by
  simp [State.load, State.cell?, place, Index.resolve_natCast hin.lt, cell, hin.lt]

/-- A machine whose pointer is in its tape stores to the cell of its store. -/
theorem store_place (hin : store.InTape policy) (pc : Nat) (value : Int8) :
    (store.place policy pc).1.store value = .ok ((store.put value).place policy pc).1 := by
  simp [State.store, State.setCell?, place, Index.resolve_natCast hin.lt, put, hin.lt,
    Array.setIfInBounds]

/-- On a ring with cells the pointer comes to stand where it should, as far as its place has to be turned. -/
theorem turnTo_of_pos {α : Type} {state : State α} {modulus : Int} (hpos : 0 < modulus) (place : Int) :
    state.turnTo modulus place = .ok { state with ptr := place % modulus } := by
  rw [State.turnTo, if_neg (Int.ne_of_gt hpos), Int.fmod_eq_emod_of_nonneg _ (Int.le_of_lt hpos)]

theorem moveLeft_place (hin : store.InTape policy) (pc : Nat) :
    (store.place policy pc).1.moveLeft = .ok ((store.left policy).place policy pc).1 := by
  have hlt := hin.lt
  cases policy with
  | ring modulus =>
      have hsize := hin.ring modulus rfl
      simp only [State.moveLeft, place, turnTo_of_pos (show 0 < modulus by omega), Store.left, Except.ok.injEq,
        State.mk.injEq, true_and, and_true]
      split
      · rename_i hzero
        rw [← Int.add_emod_right, Int.emod_eq_of_lt] <;> omega
      · rw [Int.emod_eq_of_lt] <;> omega
  | grow chunk =>
      simp only [State.moveLeft, place, Store.left, Except.ok.injEq, State.mk.injEq, true_and, and_true]
      omega

theorem input_right [Host] {next : Store σ} (h : store.right policy = .ok next) : next.input = store.input := by
  cases policy with
  | ring modulus =>
      injection h with h
      rw [← h]
  | grow chunk => obtain ⟨_, rfl⟩ | ⟨_, _, _, rfl⟩ := right_grow_of_ok h <;> rfl

/-- The machine moves right as its store does. -/
theorem moveRight_place [Host] {next : Store σ} (hin : store.InTape policy) (h : store.right policy = .ok next)
    (pc : Nat) : (store.place policy pc).1.moveRight = .ok (next.place policy pc).1 := by
  have hlt := hin.lt
  cases policy with
  | ring modulus =>
      have hsize := hin.ring modulus rfl
      injection h with h
      subst h
      simp only [State.moveRight, place, turnTo_of_pos (show 0 < modulus by omega), Except.ok.injEq,
        State.mk.injEq, true_and, and_true]
      split
      · rename_i hend
        rw [show (store.ptr : Int) + 1 = modulus by omega, Int.emod_self]
        rfl
      · rw [Int.emod_eq_of_lt] <;> omega
  | grow chunk =>
      obtain ⟨hroom, rfl⟩ | ⟨hend, count, hcount, rfl⟩ := right_grow_of_ok h
      · have hnot : ¬ (store.cells.size : Int) ≤ (store.ptr : Int) + 1 := by omega
        simp [State.moveRight, place, hnot]
      · have hle : (store.cells.size : Int) ≤ (store.ptr : Int) + 1 := by omega
        simp [State.moveRight, place, hcount, hle, State.extend]

/-- Without room the pointer is in front of the cells that cannot be had. -/
theorem moveRight_place_room [Host] {e : RoomError} (h : store.right policy = .error e) (pc : Nat) :
    (store.place policy pc).1.moveRight
      = .error ⟨.room e, { (store.place policy pc).1 with ptr := store.ptr + 1 }⟩ := by
  cases policy with
  | ring modulus => exact absurd h (by simp [Store.right])
  | grow chunk =>
      obtain ⟨hend, hcount⟩ := right_grow_of_error h
      have hle : (store.cells.size : Int) ≤ (store.ptr : Int) + 1 := by omega
      simp [State.moveRight, place, hcount, hle]

/-- What the program of a machine works on. -/
def ofState (state : State) (input : σ) : Store σ :=
  ⟨state.cells, state.ptr.toNat, state.output, input⟩

/-- A bracket of the machine jumps to its `partner?`. -/
theorem jump_place {program : Program} {pc target : Nat} (h : program.partner? pc = some target) :
    (store.place policy pc).1.jump program = .ok (store.place policy target).1 := by
  simp only [State.jump, place, h]

theorem halted_place {program : Program} {pc : Nat} (h : pc < program.size) :
    (store.place policy pc).1.halted program = false := by
  refine decide_eq_false ?_
  show ¬ (program.size : Int) ≤ (pc : Int)
  omega

theorem halted_place_size (policy : Policy) (store : Store σ) (program : Program) :
    (store.place policy program.size).1.halted program = true :=
  decide_eq_true (Int.le_refl _)

/-- A machine is its store, placed at its program pointer. -/
theorem place_ofState {state : State} {pc : Nat} (hpc : state.pc = pc) (hnonneg : 0 ≤ state.ptr)
    (input : σ) : (ofState state input).place state.policy pc = (state, input) := by
  simp [ofState, place, ← hpc, Int.toNat_of_nonneg hnonneg]

/-- The store of a sound state is in its tape. -/
theorem inTape_ofState {state : State} (hsound : state.Sound) (input : σ) :
    (ofState state input).InTape state.policy := by
  refine ⟨?_, hsound.ring⟩
  have hnonneg := hsound.nonneg
  have hlt := hsound.lt
  simp only [ofState]
  omega

/-- A store that is in its tape makes a sound state. -/
theorem sound_place {policy : Policy} {store : Store σ} (hpos : policy.Positive)
    (hin : store.InTape policy) (pc : Nat) : (store.place policy pc).1.Sound := by
  refine ⟨hpos, Int.natCast_nonneg _, ?_, hin.ring⟩
  exact Int.ofNat_lt.mpr hin.lt

end Store

/-! ## Actions -/

variable [Source σ]

/-- What an action does to a store; the only thing that can fail is to find room for new cells. -/
def Action.apply [Host] (policy : Policy) (action : Action) (store : Store σ) : Except RoomError (Store σ) :=
  match action with
  | .inc => .ok (store.put (store.cell + 1))
  | .dec => .ok (store.put (store.cell - 1))
  | .left => .ok (store.left policy)
  | .right => store.right policy
  | .read =>
    let (value, rest) := Source.next store.input
    .ok { store.put (Int8.ofInt (value.getD 0)) with input := rest }
  | .write => .ok { store with output := store.output.push store.cell }

namespace Store

/-- **Actions keep the pointer in the tape,** only add to the output and never shorten the tape. -/
theorem InTape.apply [Host] {policy : Policy} {store next : Store σ} {action : Action} (hpos : policy.Positive)
    (hin : store.InTape policy) (h : action.apply policy store = .ok next) :
    next.InTape policy ∧ store.Extends next := by
  cases action with
  | inc =>
      injection h with h
      subst h
      exact ⟨hin.put _, List.prefix_rfl, by simp [Store.put]⟩
  | dec =>
      injection h with h
      subst h
      exact ⟨hin.put _, List.prefix_rfl, by simp [Store.put]⟩
  | left =>
      injection h with h
      subst h
      refine ⟨hin.left, ?_, ?_⟩
      · cases policy <;> exact List.prefix_rfl
      · cases policy <;> exact Nat.le_refl _
  | right => exact hin.right hpos h
  | read =>
      injection h with h
      subst h
      exact ⟨⟨(hin.put _).lt, (hin.put _).ring⟩, List.prefix_rfl, by simp [Store.put]⟩
  | write =>
      injection h with h
      subst h
      refine ⟨⟨hin.lt, hin.ring⟩, ?_, Nat.le_refl _⟩
      rw [Array.toList_push]
      exact List.prefix_append _ _

/-- Only a growing tape that finds no room makes an action fail. -/
theorem policy_of_apply_error [Host] {policy : Policy} {store : Store σ} {action : Action} {e : RoomError}
    (h : action.apply policy store = .error e) :
    ∃ chunk, policy = .grow chunk ∧ cellCount chunk = .error e := by
  cases action with
  | right =>
      cases policy with
      | ring modulus => exact absurd h (by simp [Action.apply, Store.right])
      | grow chunk => exact ⟨chunk, rfl, (Store.right_grow_of_error h).2⟩
  | inc | dec | left | read | write => exact absurd h (by simp [Action.apply])

end Store

/-! ## Steps -/

theorem Program.get?_natCast {program : Program} {pc : Nat} {instr : Instr}
    (h : program.instrs.toList[pc]? = some instr) : program.get? pc = some instr := by
  rw [Array.getElem?_toList, Array.getElem?_eq_some_iff] at h
  obtain ⟨hlt, rfl⟩ := h
  rw [Program.get?, Index.resolve_natCast hlt]
  rfl

theorem Program.lt_size {program : Program} {pc : Nat} {instr : Instr}
    (h : program.instrs.toList[pc]? = some instr) : pc < program.size := by
  rw [Array.getElem?_toList, Array.getElem?_eq_some_iff] at h
  exact h.1

variable {program : Program} {policy : Policy} {store next : Store σ} {pc : Nat}

/-- A step executes the instruction at the program pointer and moves on. -/
theorem step_place [Host] {instr : Instr} (hget : program.instrs.toList[pc]? = some instr)
    (hread : instr ≠ .read) :
    step program (store.place policy pc).1 (store.place policy pc).2
      = (((store.place policy pc).1.execute program none instr).map State.advance, store.input) := by
  rw [step, Store.halted_place (Program.lt_size hget), if_neg (by simp),
    show (store.place policy pc).1.pc = (pc : Int) from rfl, Program.get?_natCast hget]
  cases instr with
  | read => exact absurd rfl hread
  | inc | dec | left | right | enter | leave | write => rfl

/-- A step that reads takes a value from the input. -/
theorem step_place_read [Host] (hget : program.instrs.toList[pc]? = some .read) :
    step program (store.place policy pc).1 (store.place policy pc).2
      = (((store.place policy pc).1.execute program (Source.next store.input).1 .read).map State.advance,
          (Source.next store.input).2) := by
  rw [step, Store.halted_place (Program.lt_size hget), if_neg (by simp),
    show (store.place policy pc).1.pc = (pc : Int) from rfl, Program.get?_natCast hget]
  rfl

/-- **A step at an action does to the store what the action does.** -/
theorem step_act [Host] {action : Action} (hget : program.instrs.toList[pc]? = some action.instr)
    (hin : store.InTape policy) (h : action.apply policy store = .ok next) :
    step program (store.place policy pc).1 (store.place policy pc).2
      = (.ok (next.place policy (pc + 1)).1, next.input) := by
  cases action with
  | inc | dec =>
      injection h with h
      subst h
      rw [step_place hget (by simp [Action.instr]), Action.instr, State.execute, Store.load_place hin]
      simp only [bind, Except.bind, Store.store_place hin, Cell.succ_int8, Cell.pred_int8]
      rfl
  | left =>
      injection h with h
      subst h
      rw [step_place hget (by simp [Action.instr]), Action.instr, State.execute, Store.moveLeft_place hin]
      cases policy <;> rfl
  | right =>
      rw [step_place hget (by simp [Action.instr]), Action.instr, State.execute,
        Store.moveRight_place hin h, ← Store.input_right h]
      rfl
  | read =>
      injection h with h
      subst h
      rw [step_place_read hget, State.execute, Store.store_place hin, Cell.ofInt_int8]
      rfl
  | write =>
      injection h with h
      subst h
      rw [step_place hget (by simp [Action.instr]), Action.instr, State.execute, Store.load_place hin]
      rfl

/-- A step that finds no room for new cells fails. -/
theorem step_act_room [Host] {action : Action} {e : RoomError}
    (hget : program.instrs.toList[pc]? = some action.instr) (h : action.apply policy store = .error e) :
    step program (store.place policy pc).1 (store.place policy pc).2
      = (.error ⟨.room e, { (store.place policy pc).1 with ptr := store.ptr + 1 }⟩, store.input) := by
  cases action with
  | right =>
      rw [step_place hget (by simp [Action.instr]), Action.instr, State.execute,
        Store.moveRight_place_room h]
      rfl
  | inc | dec | left | read | write => exact absurd h (by simp [Action.apply])

/-- **A step at an opening bracket** goes on behind the loop when the cell is zero, else into it. -/
theorem step_enter [Host] {target : Nat} (hget : program.instrs.toList[pc]? = some .enter)
    (hin : store.InTape policy) (hjump : program.partner? pc = some target) :
    step program (store.place policy pc).1 (store.place policy pc).2
      = (.ok (store.place policy (if store.cell = 0 then target + 1 else pc + 1)).1, store.input) := by
  rw [step_place hget (by simp), State.execute, Store.load_place hin]
  simp only [bind, Except.bind, Cell.zero_int8]
  split
  · rw [Store.jump_place hjump]
    rfl
  · rfl

/-- **A step at a closing bracket** goes on behind the loop when the cell is zero, else back into it,
past the opening bracket. -/
theorem step_leave [Host] {target : Nat} (hget : program.instrs.toList[pc]? = some .leave)
    (hin : store.InTape policy) (hjump : program.partner? pc = some target) :
    step program (store.place policy pc).1 (store.place policy pc).2
      = (.ok (store.place policy (if store.cell = 0 then pc + 1 else target + 1)).1, store.input) := by
  rw [step_place hget (by simp), State.execute, Store.load_place hin]
  simp only [bind, Except.bind, Cell.zero_int8]
  split
  · rfl
  · rw [Store.jump_place hjump]
    rfl

/-! ## Machines seen through a map -/

section

variable {α β : Type}

/-- What comes of a machine, seen through a map of states, whether it fails or not. -/
def mapResult (φ : State α → State β) : Except (Fault α) (State α) → Except (Fault β) (State β)
  | .ok state => .ok (φ state)
  | .error fault => .error ⟨fault.error, φ fault.state⟩

/-- A map of states that goes along with `State.advance` does so on results. -/
theorem map_advance_mapResult {φ : State α → State β} (hadvance : ∀ state, φ state.advance = (φ state).advance)
    (result : Except (Fault α) (State α)) :
    (mapResult φ result).map State.advance = mapResult φ (result.map State.advance) := by
  cases result with
  | ok state => exact congrArg Except.ok (hadvance state).symm
  | error fault => rfl

variable [Cell α] [DecidableEq α] [Cell β] [DecidableEq β]

/-- **A map that commutes with every instruction commutes with a step,** if it keeps the program pointer. -/
theorem step_map [Host] {φ : State α → State β} {state : State α} (hpc : (φ state).pc = state.pc)
    (hadvance : ∀ state, φ state.advance = (φ state).advance)
    (hexecute : ∀ value instr,
      (φ state).execute program value instr = mapResult φ (state.execute program value instr)) (input : σ) :
    step program (φ state) input = (mapResult φ (step program state input).1, (step program state input).2) := by
  have hhalted : (φ state).halted program = state.halted program := by rw [State.halted, State.halted, hpc]
  rw [step, step, hhalted, hpc]
  split
  · rfl
  · cases program.get? state.pc with
    | none => rfl
    | some instr =>
        cases instr with
        | read => simp only [hexecute, map_advance_mapResult hadvance]
        | inc | dec | left | right | enter | leave | write =>
            simp only [hexecute, map_advance_mapResult hadvance]

end

/-! ## Several steps -/

section

variable {α : Type} [Cell α] [DecidableEq α]

/-- The machine and its input after `n` steps; `none` when one of them fails, as every step does once the
machine has halted. -/
def steps [Host] (program : Program) : (n : Nat) → State α × σ → Option (State α × σ)
  | 0, machine => some machine
  | n + 1, machine =>
    match step program machine.1 machine.2 with
    | (.ok state, rest) => steps program n (state, rest)
    | (.error _, _) => none

/-- What follows a step depends on the step alone. -/
theorem steps_succ_congr [Host] {machine other : State α × σ}
    (h : step program machine.1 machine.2 = step program other.1 other.2) (n : Nat) :
    steps program (n + 1) machine = steps program (n + 1) other := by
  rw [steps, steps, h]

/-- A machine that has halted takes no step. -/
theorem step_halted [Host] {machine : State α × σ} (h : machine.1.halted program = true) :
    step program machine.1 machine.2 = (.error ⟨.halted, machine.1⟩, machine.2) := by
  rw [step, if_pos h]

theorem steps_succ_of_fault [Host] {machine : State α × σ} {fault : Fault α} {rest : σ}
    (h : step program machine.1 machine.2 = (.error fault, rest)) (n : Nat) :
    steps program (n + 1) machine = none := by
  rw [steps, h]

/-- A number of steps can be taken in two parts. -/
theorem steps_add [Host] (n k : Nat) (machine : State α × σ) :
    steps program (n + k) machine = (steps program n machine).bind (steps program k) := by
  induction n generalizing machine with
  | zero => rw [Nat.zero_add, steps, Option.bind_some]
  | succ n ih =>
      rw [Nat.succ_add, steps, steps]
      split
      · rw [ih]
      · rfl

end

theorem steps_succ_of_step [Host] {machine : State × σ} {pc' : Nat}
    (h : step program machine.1 machine.2 = (.ok (next.place policy pc').1, next.input)) (n : Nat) :
    steps program (n + 1) machine = steps program n (next.place policy pc') := by
  rw [steps, h]
  rfl

end ProgramArt.Tape
