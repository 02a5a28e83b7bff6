import ProgramArt.Host.Standard
import ProgramArt.Proofs.Tape.Machine

/-!
# Structured execution of tape programs

Code runs without a program pointer: actions in order, and the body of a loop as long as the cell under the pointer is
not zero (`Exec`). The machine knows no nesting, only a jump table. Both do the same: they end in the same store, fail
for the same lack of room, or run forever together. `arrives_of_exec` has the machine follow a structured execution,
and `exec_of_stops` finds the one that a machine has followed that stops.
-/

namespace ProgramArt.Tape

variable {σ : Type} [Source σ]

/-! ## Structured execution -/

/-- `Exec policy code store result`: the code, started on `store`, ends with `result`, a store or the lack
of room that stopped it. A code that runs forever has no result. -/
inductive Exec [Host] (policy : Policy) : Code → Store σ → Except RoomError (Store σ) → Prop where
  | done {store : Store σ} : Exec policy .done store (.ok store)
  | act {action : Action} {rest : Code} {store next : Store σ} {result : Except RoomError (Store σ)}
      (hact : action.apply policy store = .ok next) (hrest : Exec policy rest next result) :
      Exec policy (.act action rest) store result
  | actRoom {action : Action} {rest : Code} {store : Store σ} {e : RoomError}
      (hact : action.apply policy store = .error e) : Exec policy (.act action rest) store (.error e)
  | exit {body rest : Code} {store : Store σ} {result : Except RoomError (Store σ)}
      (hcell : store.cell = 0) (hrest : Exec policy rest store result) :
      Exec policy (.loop body rest) store result
  | again {body rest : Code} {store next : Store σ} {result : Except RoomError (Store σ)}
      (hcell : store.cell ≠ 0) (hbody : Exec policy body store (.ok next))
      (hloop : Exec policy (.loop body rest) next result) : Exec policy (.loop body rest) store result
  | bodyRoom {body rest : Code} {store : Store σ} {e : RoomError}
      (hcell : store.cell ≠ 0) (hbody : Exec policy body store (.error e)) :
      Exec policy (.loop body rest) store (.error e)

/-! ## Code at a place of a program -/

/-- The code stands at `pos` in the program, and the table joins the brackets of its loops. -/
structure CodeAt (program : Program) (pos : Nat) (code : Code) : Prop where
  get : ∀ k instr, code.instrs[k]? = some instr → program.instrs.toList[pos + k]? = some instr
  jumps : ∀ a b, (a, b) ∈ code.pairs pos → program.partner? a = some b ∧ program.partner? b = some a

namespace CodeAt

variable {program : Program} {pos : Nat} {action : Action} {body rest : Code}

/-- The code of a program stands at its start. -/
theorem whole (program : Program) : CodeAt program 0 program.code := by
  refine ⟨?_, ?_⟩
  · intro k instr hget
    rwa [Nat.zero_add, ← program.instrs_code]
  · intro a b hmem
    exact ⟨(program.partner?_eq_some_iff a b).mpr (.inl hmem),
      (program.partner?_eq_some_iff b a).mpr (.inr hmem)⟩

theorem head (h : CodeAt program pos (.act action rest)) :
    program.instrs.toList[pos]? = some action.instr := h.get 0 _ rfl

theorem tail (h : CodeAt program pos (.act action rest)) : CodeAt program (pos + 1) rest := by
  refine ⟨?_, h.jumps⟩
  intro k instr hget
  rw [show pos + 1 + k = pos + (k + 1) by omega]
  exact h.get (k + 1) instr hget

theorem enter (h : CodeAt program pos (.loop body rest)) : program.instrs.toList[pos]? = some .enter :=
  h.get 0 _ rfl

theorem leave (h : CodeAt program pos (.loop body rest)) :
    program.instrs.toList[pos + 1 + body.size]? = some .leave := by
  rw [show pos + 1 + body.size = pos + (body.size + 1) by omega]
  exact h.get _ _ (Code.getElem?_loop_leave body rest)

theorem partners (h : CodeAt program pos (.loop body rest)) :
    program.partner? pos = some (pos + 1 + body.size)
      ∧ program.partner? ((pos + 1 + body.size : Nat) : Int) = some pos :=
  h.jumps pos (pos + 1 + body.size) (by simp [Code.pairs])

theorem inner (h : CodeAt program pos (.loop body rest)) : CodeAt program (pos + 1) body := by
  refine ⟨?_, ?_⟩
  · intro k instr hget
    have hk : k < body.size := by
      rw [← Code.length_instrs]
      exact (List.getElem?_eq_some_iff.mp hget).1
    rw [show pos + 1 + k = pos + (k + 1) by omega]
    exact h.get (k + 1) instr (by rw [Code.getElem?_loop_body hk, hget])
  · intro a b hmem
    exact h.jumps a b (by simp [Code.pairs, hmem])

theorem behind (h : CodeAt program pos (.loop body rest)) :
    CodeAt program (pos + 1 + body.size + 1) rest := by
  refine ⟨?_, ?_⟩
  · intro k instr hget
    rw [show pos + 1 + body.size + 1 + k = pos + (body.size + 2 + k) by omega]
    exact h.get _ instr (by rw [Code.getElem?_loop_rest, hget])
  · intro a b hmem
    exact h.jumps a b (by simp [Code.pairs, hmem])

end CodeAt

variable {program : Program} {policy : Policy}

/-- Both brackets of a loop test the same cell and go on at the same places. -/
theorem step_enter_eq_step_leave [Host] {store : Store σ} {pos : Nat} {body rest : Code}
    (hcode : CodeAt program pos (.loop body rest)) (hin : store.InTape policy) :
    step program (store.place policy (pos + 1 + body.size)).1 (store.place policy (pos + 1 + body.size)).2
      = step program (store.place policy pos).1 (store.place policy pos).2 := by
  rw [step_enter hcode.enter hin hcode.partners.1, step_leave hcode.leave hin hcode.partners.2]

/-! ## The machine follows a structured execution -/

/-- The machine shows a result: it stands at `pos` with the store, or fails for the lack of room. -/
def Arrives [Host] (program : Program) (policy : Policy) (pos : Nat) :
    Except RoomError (Store σ) → State × σ → Prop
  | .ok store, machine => machine = store.place policy pos
  | .error e, machine =>
    ∃ fault rest, step program machine.1 machine.2 = (.error fault, rest) ∧ fault.error = .room e

/-- A machine at a loop has not arrived at a result of that loop. -/
theorem not_arrives_enter [Host] {store : Store σ} {pos : Nat} {body rest : Code}
    {result : Except RoomError (Store σ)} (hcode : CodeAt program pos (.loop body rest))
    (hin : store.InTape policy) :
    ¬ Arrives program policy (pos + (Code.loop body rest).size) result (store.place policy pos) := by
  intro h
  cases result with
  | ok final =>
      have hpc := congrArg (fun machine : State × σ => machine.1.pc) h
      simp only [Store.place, Code.size] at hpc
      omega
  | error e =>
      obtain ⟨fault, input, hfault, _⟩ := h
      rw [step_enter hcode.enter hin hcode.partners.1] at hfault
      exact absurd hfault (by simp)

/-- **The machine follows a structured execution.** Induction on the execution: the closing bracket takes
the step that the opening one would take, so the run of what is left of a loop starts there too. -/
theorem arrives_of_exec [Host] (hpos : policy.Positive) {code : Code} {store : Store σ}
    {result : Except RoomError (Store σ)} (hexec : Exec policy code store result) :
    ∀ {pos : Nat}, CodeAt program pos code → store.InTape policy →
      ∃ n after, steps program n (store.place policy pos) = some after
        ∧ Arrives program policy (pos + code.size) result after
        ∧ ∀ next, result = .ok next → next.InTape policy := by
  induction hexec with
  | @done store =>
      intro pos _ hin
      exact ⟨0, store.place policy pos, rfl, rfl, fun next h => by injection h with h; rwa [← h]⟩
  | @act action rest store next result hact _ ih =>
      intro pos hcode hin
      obtain ⟨n, after, hrun, harr, hend⟩ := ih hcode.tail (hin.apply hpos hact).1
      refine ⟨n + 1, after, ?_, ?_, hend⟩
      · rw [steps_succ_of_step (step_act hcode.head hin hact), hrun]
      · rwa [show pos + (Code.act action rest).size = pos + 1 + rest.size by simp only [Code.size]; omega]
  | @actRoom action rest store e hact =>
      intro pos hcode hin
      exact ⟨0, store.place policy pos, rfl, ⟨_, _, step_act_room hcode.head hact, rfl⟩,
        fun next h => absurd h (by simp)⟩
  | @exit body rest store result hcell _ ih =>
      intro pos hcode hin
      obtain ⟨n, after, hrun, harr, hend⟩ := ih hcode.behind hin
      refine ⟨n + 1, after, ?_, ?_, hend⟩
      · have hstep := step_enter hcode.enter hin hcode.partners.1
        rw [if_pos hcell] at hstep
        rw [steps_succ_of_step hstep, hrun]
      · rwa [show pos + (Code.loop body rest).size = pos + 1 + body.size + 1 + rest.size by
          simp only [Code.size]; omega]
  | @again body rest store next result hcell _ _ ihb ihl =>
      intro pos hcode hin
      obtain ⟨n, after, hrun, harr, hend⟩ := ihb hcode.inner hin
      have hafter : after = next.place policy (pos + 1 + body.size) := harr
      have hin' : next.InTape policy := hend next rfl
      obtain ⟨k, final, hrun', harr', hend'⟩ := ihl hcode hin'
      -- what is left of the loop has a first step, and it is the step of the closing bracket
      cases k with
      | zero =>
          injection hrun' with hrun'
          rw [← hrun'] at harr'
          exact absurd harr' (not_arrives_enter hcode hin')
      | succ k =>
          refine ⟨1 + (n + (k + 1)), final, ?_, harr', hend'⟩
          have hstep := step_enter hcode.enter hin hcode.partners.1
          rw [if_neg hcell] at hstep
          rw [Nat.add_comm 1, steps_succ_of_step hstep, steps_add,
            hrun, Option.bind_some, hafter, steps_succ_congr (step_enter_eq_step_leave hcode hin'), hrun']
  | @bodyRoom body rest store e hcell _ ih =>
      intro pos hcode hin
      obtain ⟨n, after, hrun, harr, hend⟩ := ih hcode.inner hin
      refine ⟨n + 1, after, ?_, harr, hend⟩
      have hstep := step_enter hcode.enter hin hcode.partners.1
      rw [if_neg hcell] at hstep
      rw [steps_succ_of_step hstep, hrun]

/-! ## A machine that stops has followed a structured execution -/

/-- The machine has stopped: its next step fails. -/
def Stopped [Host] (program : Program) (machine : State × σ) : Prop :=
  ∃ fault rest, step program machine.1 machine.2 = (.error fault, rest)

/-- A machine that can take a step takes it on the way to where it stops. -/
theorem steps_of_stopped [Host] {machine final : State × σ} {next : Store σ} {n pc : Nat}
    (hrun : steps program n machine = some final) (hstop : Stopped program final)
    (hstep : step program machine.1 machine.2 = (.ok (next.place policy pc).1, next.input)) :
    ∃ k, n = k + 1 ∧ steps program k (next.place policy pc) = some final := by
  cases n with
  | zero =>
      injection hrun with hrun
      obtain ⟨fault, rest, hfault⟩ := hstop
      rw [← hrun, hstep] at hfault
      exact absurd hfault (by simp)
  | succ k =>
      rw [steps_succ_of_step hstep] at hrun
      exact ⟨k, rfl, hrun⟩

/-- Within `n` steps a result leads to where the machine stops: it is that stop, or the machine goes on
from the place behind the code. -/
def Leads [Host] (program : Program) (policy : Policy) (pos n : Nat) (final : State × σ) :
    Except RoomError (Store σ) → Prop
  | .ok store =>
    store.InTape policy ∧ ∃ k, k ≤ n ∧ steps program k (store.place policy pos) = some final
  | .error e => Arrives program policy pos (.error e) final

theorem Leads.mono [Host] {pos n m : Nat} {final : State × σ} {result : Except RoomError (Store σ)}
    (h : Leads program policy pos n final result) (hle : n ≤ m) :
    Leads program policy pos m final result := by
  cases result with
  | ok store =>
      obtain ⟨hin, k, hk, hrun⟩ := h
      exact ⟨hin, k, Nat.le_trans hk hle, hrun⟩
  | error e => exact h

/-- The part of a loop that is left when its body begins: the body runs to the closing bracket, and from
there the loop is left or begins again. Induction on the number of steps, which the body and the bracket
shorten. -/
theorem exec_loop_of_stops [Host] {body rest : Code} {pos : Nat} {final : State × σ}
    (hcode : CodeAt program pos (.loop body rest)) (hstop : Stopped program final)
    (ihb : ∀ {n : Nat} {store : Store σ}, store.InTape policy →
      steps program n (store.place policy (pos + 1)) = some final →
      ∃ result, Exec policy body store result
        ∧ Leads program policy (pos + 1 + body.size) n final result)
    (ihr : ∀ {n : Nat} {store : Store σ}, store.InTape policy →
      steps program n (store.place policy (pos + 1 + body.size + 1)) = some final →
      ∃ result, Exec policy rest store result
        ∧ Leads program policy (pos + (Code.loop body rest).size) n final result) :
    ∀ {n : Nat} {store : Store σ}, store.InTape policy → store.cell ≠ 0 →
      steps program n (store.place policy (pos + 1)) = some final →
      ∃ result, Exec policy (.loop body rest) store result
        ∧ Leads program policy (pos + (Code.loop body rest).size) n final result := by
  intro n
  -- every round takes steps, so fewer are left for the next one
  induction n using Nat.strongRecOn with
  | ind n ih =>
      intro store hin hcell hrun
      obtain ⟨result, hbody, hlead⟩ := ihb hin hrun
      cases result with
      | error e => exact ⟨.error e, .bodyRoom hcell hbody, hlead⟩
      | ok next =>
          obtain ⟨hin', k, hk, hrun'⟩ := hlead
          have hstep := step_leave hcode.leave hin' hcode.partners.2
          obtain ⟨m, rfl, hrest⟩ := steps_of_stopped hrun' hstop hstep
          by_cases hzero : next.cell = 0
          · rw [if_pos hzero] at hrest
            obtain ⟨result, hexec, hlead'⟩ := ihr hin' hrest
            exact ⟨result, .again hcell hbody (.exit hzero hexec), hlead'.mono (by omega)⟩
          · rw [if_neg hzero] at hrest
            obtain ⟨result, hexec, hlead'⟩ := ih m (by omega) hin' hzero hrest
            exact ⟨result, .again hcell hbody hexec, hlead'.mono (by omega)⟩

/-- **A machine that stops has followed a structured execution** of the code it started on. Induction on
the code. -/
theorem exec_of_stops [Host] (hpos : policy.Positive) {final : State × σ} (hstop : Stopped program final)
    (code : Code) :
    ∀ {pos n : Nat} {store : Store σ}, CodeAt program pos code → store.InTape policy →
      steps program n (store.place policy pos) = some final →
      ∃ result, Exec policy code store result
        ∧ Leads program policy (pos + code.size) n final result := by
  induction code with
  | done =>
      intro pos n store _ hin hrun
      exact ⟨.ok store, .done, hin, n, Nat.le_refl n, hrun⟩
  | act action rest ih =>
      intro pos n store hcode hin hrun
      cases hact : action.apply policy store with
      | error e =>
          have hstep := step_act_room hcode.head hact
          cases n with
          | zero =>
              injection hrun with hrun
              exact ⟨.error e, .actRoom hact, _, _, hrun ▸ hstep, rfl⟩
          | succ n =>
              rw [steps_succ_of_fault hstep] at hrun
              exact absurd hrun (by simp)
      | ok next =>
          obtain ⟨k, rfl, hrest⟩ := steps_of_stopped hrun hstop (step_act hcode.head hin hact)
          obtain ⟨result, hexec, hlead⟩ := ih hcode.tail (hin.apply hpos hact).1 hrest
          refine ⟨result, .act hact hexec, ?_⟩
          rw [show pos + (Code.act action rest).size = pos + 1 + rest.size by simp only [Code.size]; omega]
          exact hlead.mono (Nat.le_succ k)
  | loop body rest ihb ihr =>
      intro pos n store hcode hin hrun
      have hend : pos + (Code.loop body rest).size = pos + 1 + body.size + 1 + rest.size := by
        simp only [Code.size]
        omega
      -- what is behind a loop ends where the whole ends
      have ihr' : ∀ {n : Nat} {store : Store σ}, store.InTape policy →
          steps program n (store.place policy (pos + 1 + body.size + 1)) = some final →
          ∃ result, Exec policy rest store result
            ∧ Leads program policy (pos + (Code.loop body rest).size) n final result := by
        intro n store hin hrun
        rw [hend]
        exact ihr hcode.behind hin hrun
      obtain ⟨k, rfl, hrest⟩ := steps_of_stopped hrun hstop (step_enter hcode.enter hin hcode.partners.1)
      by_cases hzero : store.cell = 0
      · rw [if_pos hzero] at hrest
        obtain ⟨result, hexec, hlead⟩ := ihr' hin hrest
        exact ⟨result, .exit hzero hexec, hlead.mono (Nat.le_succ k)⟩
      · rw [if_neg hzero] at hrest
        obtain ⟨result, hexec, hlead⟩ :=
          exec_loop_of_stops hcode hstop (ihb hcode.inner) ihr' hin hzero hrest
        exact ⟨result, hexec, hlead.mono (Nat.le_succ k)⟩

/-! ## Whole programs -/

/-- A machine that has halted goes nowhere. -/
theorem eq_of_steps_halted [Host] {machine final : State × σ} {k : Nat} (h : machine.1.halted program = true)
    (hrun : steps program k machine = some final) : final = machine := by
  cases k with
  | zero =>
      injection hrun with hrun
      exact hrun.symm
  | succ k =>
      rw [steps_succ_of_fault (step_halted h)] at hrun
      exact absurd hrun (by simp)

theorem fault_unique [Host] {machine : State × σ} {fault fault' : Fault} {rest rest' : σ}
    (h : step program machine.1 machine.2 = (.error fault, rest))
    (h' : step program machine.1 machine.2 = (.error fault', rest')) : fault = fault' := by
  rw [h] at h'
  injection h' with h'
  injection h'

/-- A machine that runs out of steps stops on the way. -/
theorem exists_stopped [Host] {machine : State × σ} {n : Nat} (h : steps program n machine = none) :
    ∃ k after, steps program k machine = some after ∧ Stopped program after := by
  induction n generalizing machine with
  | zero => exact absurd h (by simp [steps])
  | succ n ih =>
      cases hstep : step program machine.1 machine.2 with
      | mk outcome rest =>
          cases outcome with
          | error fault => exact ⟨0, machine, rfl, fault, rest, hstep⟩
          | ok state =>
              rw [steps, hstep] at h
              obtain ⟨k, after, hrun, hstop⟩ := ih h
              exact ⟨k + 1, after, by rw [steps, hstep]; exact hrun, hstop⟩

variable {store : Store σ}

theorem exec_code_of_stops [Host] (hpos : policy.Positive) (hin : store.InTape policy) {n : Nat} {final : State × σ}
    (hstop : Stopped program final) (hrun : steps program n (store.place policy 0) = some final) :
    ∃ result, Exec policy program.code store result ∧ Leads program policy program.size n final result := by
  obtain ⟨result, hexec, hlead⟩ := exec_of_stops hpos hstop program.code (CodeAt.whole program) hin hrun
  rw [Nat.zero_add, program.size_code] at hlead
  exact ⟨result, hexec, hlead⟩

/-- A machine that halts shows the store that the code of its program ends in. -/
theorem exec_of_halted [Host] (hpos : policy.Positive) (hin : store.InTape policy) {n : Nat} {final : State × σ}
    (hrun : steps program n (store.place policy 0) = some final) (hhalt : final.1.halted program = true) :
    ∃ next, final = next.place policy program.size ∧ Exec policy program.code store (.ok next) := by
  have hstep := step_halted hhalt
  obtain ⟨result, hexec, hlead⟩ := exec_code_of_stops hpos hin ⟨_, _, hstep⟩ hrun
  cases result with
  | ok next =>
      obtain ⟨_, k, _, hrun'⟩ := hlead
      exact ⟨next, eq_of_steps_halted (Store.halted_place_size policy next program) hrun', hexec⟩
  | error e =>
      obtain ⟨fault, rest, hfault, hroom⟩ := hlead
      rw [← fault_unique hstep hfault] at hroom
      exact absurd hroom (by simp)

/-- A machine that finds no room shows that the code of its program does not. -/
theorem exec_of_fault [Host] (hpos : policy.Positive) (hin : store.InTape policy) {n : Nat} {after : State × σ}
    {fault : Fault} {rest : σ} {e : RoomError}
    (hrun : steps program n (store.place policy 0) = some after)
    (hstep : step program after.1 after.2 = (.error fault, rest)) (hroom : fault.error = .room e) :
    Exec policy program.code store (.error e) := by
  obtain ⟨result, hexec, hlead⟩ := exec_code_of_stops hpos hin ⟨_, _, hstep⟩ hrun
  cases result with
  | ok next =>
      obtain ⟨_, k, _, hrun'⟩ := hlead
      have hafter := eq_of_steps_halted (Store.halted_place_size policy next program) hrun'
      have hhalt : after.1.halted program = true := by
        rw [hafter]
        exact Store.halted_place_size policy next program
      rw [fault_unique hstep (step_halted hhalt)] at hroom
      exact absurd hroom (by simp)
  | error e' =>
      obtain ⟨fault', rest', hfault, hroom'⟩ := hlead
      rw [← fault_unique hstep hfault, hroom] at hroom'
      injection hroom' with he
      rwa [he]

/-- A machine runs forever unless the code of its program has a result. -/
theorem runs_iff_no_exec [Host] (hpos : policy.Positive) (hin : store.InTape policy) :
    (∀ n, (steps program n (store.place policy 0)).isSome = true)
      ↔ ¬ ∃ result, Exec policy program.code store result := by
  constructor
  · rintro hruns ⟨result, hexec⟩
    obtain ⟨n, after, hrun, harr, _⟩ := arrives_of_exec hpos hexec (CodeAt.whole program) hin
    rw [Nat.zero_add, program.size_code] at harr
    have hstop : Stopped program after := by
      cases result with
      | ok next =>
          rw [show after = next.place policy program.size from harr]
          exact ⟨_, _, step_halted (Store.halted_place_size policy next program)⟩
      | error e =>
          obtain ⟨fault, rest, hfault, _⟩ := harr
          exact ⟨fault, rest, hfault⟩
    obtain ⟨fault, rest, hfault⟩ := hstop
    have hnext := hruns (n + 1)
    rw [steps_add, hrun, Option.bind_some, steps_succ_of_fault hfault] at hnext
    exact absurd hnext (by simp)
  · intro hnone n
    cases hrun : steps program n (store.place policy 0) with
    | some after => rfl
    | none =>
        obtain ⟨k, after, hrun', hstop⟩ := exists_stopped hrun
        obtain ⟨result, hexec, _⟩ := exec_code_of_stops hpos hin hstop hrun'
        exact absurd ⟨result, hexec⟩ hnone

/-- **The flat machine does what the structured code does.** A balanced list is a program and is spelled by
one code only. From any state at its first instruction, with the pointer in the tape, the machine halts
with the tape, pointer, output and input with which the code ends, fails for a lack of room when the code
does, and runs forever when the code has no result. -/
theorem halts_iff_exec [Host] {instrs : List Instr} (hvalid : isBalanced instrs = true) :
    ∃ program code, Program.ofInstrs instrs = .ok program
      ∧ (∀ other : Code, other.instrs = instrs ↔ other = code)
      ∧ ∀ {σ : Type} [Source σ] (start : State) (input : σ), start.pc = 0 → start.Sound →
        (∀ (cells : Array Int8) (ptr : Nat) (output : Array Int8) (rest : σ),
          (∃ n final, steps program n (start, input) = some (final, rest)
            ∧ final.halted program = true
            ∧ final.cells = cells ∧ final.ptr = ptr ∧ final.output = output)
          ↔ Exec start.policy code (.ofState start input) (.ok ⟨cells, ptr, output, rest⟩))
        ∧ (∀ e : RoomError,
          (∃ n after fault rest, steps program n (start, input) = some after
            ∧ step program after.1 after.2 = (.error fault, rest) ∧ fault.error = .room e)
          ↔ Exec start.policy code (.ofState start input) (.error e))
        ∧ ((∀ n, (steps program n (start, input)).isSome = true)
          ↔ ¬ ∃ result, Exec start.policy code (.ofState start input) result) := by
  obtain ⟨program, hprogram, rfl⟩ := Program.exists_ofInstrs hvalid
  refine ⟨program, program.code, hprogram, ?_, ?_⟩
  · intro other
    rw [← nest_eq_some_iff, program.nest_instrs, Option.some.injEq, eq_comm]
  · intro σ _ start input hpc hsound
    have hpos := hsound.positive
    have hin := Store.inTape_ofState hsound input
    have hstart : (Store.ofState start input).place start.policy 0 = (start, input) :=
      Store.place_ofState hpc hsound.nonneg input
    -- the machine halts, finds no room, or runs on
    refine ⟨?_, ?_, ?_⟩
    · intro cells ptr output rest
      constructor
      · rintro ⟨n, final, hrun, hhalt, rfl, hptr, rfl⟩
        rw [← hstart] at hrun
        obtain ⟨next, hfinal, hexec⟩ := exec_of_halted hpos hin hrun hhalt
        injection hfinal with hstate hrest
        subst hstate hrest
        have hnext : next.ptr = ptr := Int.ofNat.inj hptr
        rwa [← hnext]
      · intro hexec
        obtain ⟨n, after, hrun, harr, _⟩ := arrives_of_exec hpos hexec (CodeAt.whole program) hin
        rw [Nat.zero_add, program.size_code] at harr
        rw [hstart, show after = Store.place start.policy program.size _ from harr] at hrun
        exact ⟨n, _, hrun, Store.halted_place_size start.policy _ program, rfl, rfl, rfl⟩
    · intro e
      constructor
      · rintro ⟨n, after, fault, rest, hrun, hstep, hroom⟩
        rw [← hstart] at hrun
        exact exec_of_fault hpos hin hrun hstep hroom
      · intro hexec
        obtain ⟨n, after, hrun, ⟨fault, rest, hstep, hroom⟩, _⟩ :=
          arrives_of_exec hpos hexec (CodeAt.whole program) hin
        rw [hstart] at hrun
        exact ⟨n, after, fault, rest, hrun, hstep, hroom⟩
    · rw [← hstart]
      exact runs_iff_no_exec hpos hin

/-- The loop that moves a cell to its right neighbour. -/
def moveLoop : List Instr := [.enter, .dec, .right, .inc, .left, .leave]

open scoped Host in
/-- On a tape of one cell that grows one by one, it moves two to the new cell. -/
theorem halts_iff_exec_moveLoop :
    isBalanced moveLoop = true ∧ ∃ code : Code, code.instrs = moveLoop
      ∧ Exec (.grow 1) code ⟨#[2], 0, #[], Input.empty⟩ (.ok ⟨#[0, 2], 0, #[], Input.empty⟩) := by
  have hvalid : isBalanced moveLoop = true := by decide
  obtain ⟨program, code, hprogram, hcode, hiff⟩ := halts_iff_exec hvalid
  have hsound : State.Sound { cells := #[2], policy := .grow 1 } :=
    ⟨by decide, by decide, by decide, by simp⟩
  refine ⟨hvalid, code, (hcode code).mpr rfl, ?_⟩
  have hbuilt : Program.ofInstrs moveLoop
      = .ok ⟨moveLoop.toArray, #[some 5, none, none, none, none, some 0], rfl⟩ := rfl
  rw [hbuilt] at hprogram
  injection hprogram with hprogram
  subst hprogram
  refine ((hiff { cells := #[2], policy := .grow 1 } Input.empty rfl hsound).1 _ _ _ _).mp
    ⟨11, { pc := 6, cells := #[0, 2], policy := .grow 1 }, ?_, ?_, rfl, rfl, rfl⟩
  · decide +kernel
  · decide +kernel

end ProgramArt.Tape
