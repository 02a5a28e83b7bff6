import ProgramArt.Tape.Program

/-!
# The loops of a tape program

A program is a flat list of instructions in which brackets mark the loops. This module reads such a list as **code**:
a sequence of actions and of loops with a body of their own. Codes and lists with balanced brackets are the same
thing: `nest` finds the code of a list, and `Code.instrs` spells it again.
-/

namespace ProgramArt.Tape

/-! ## Actions and code -/

/-- The instructions that act on the tape: all but the brackets. -/
inductive Action where
  | inc
  | dec
  | left
  | right
  | read
  | write
deriving DecidableEq

/-- The instruction of an action. -/
def Action.instr : Action → Instr
  | inc => .inc
  | dec => .dec
  | left => .left
  | right => .right
  | read => .read
  | write => .write

/-- The action of an instruction that is no bracket. -/
def Instr.action? : Instr → Option Action
  | inc => some .inc
  | dec => some .dec
  | left => some .left
  | right => some .right
  | read => some .read
  | write => some .write
  | enter | leave => none

@[simp] theorem Action.isBracket_instr (action : Action) : action.instr.isBracket = false := by
  cases action <;> rfl

/-- An instruction opens a loop, closes one or is an action. -/
theorem Instr.kinds (instr : Instr) :
    instr = .enter ∨ instr = .leave ∨ ∃ action : Action, instr = action.instr := by
  cases instr with
  | enter => exact .inl rfl
  | leave => exact .inr (.inl rfl)
  | inc => exact .inr (.inr ⟨.inc, rfl⟩)
  | dec => exact .inr (.inr ⟨.dec, rfl⟩)
  | left => exact .inr (.inr ⟨.left, rfl⟩)
  | right => exact .inr (.inr ⟨.right, rfl⟩)
  | read => exact .inr (.inr ⟨.read, rfl⟩)
  | write => exact .inr (.inr ⟨.write, rfl⟩)

/-- Code with its loops nested. -/
inductive Code where
  /-- Nothing more to do. -/
  | done
  /-- An action, then the rest. -/
  | act (action : Action) (rest : Code)
  /-- Repeat the body while the cell under the pointer is not zero, then do the rest. -/
  | loop (body rest : Code)
deriving DecidableEq

namespace Code

/-- The flat list that a code spells. -/
def instrs : Code → List Instr
  | done => []
  | act action rest => action.instr :: rest.instrs
  | loop body rest => .enter :: (body.instrs ++ .leave :: rest.instrs)

/-- The number of instructions. -/
def size : Code → Nat
  | done => 0
  | act _ rest => rest.size + 1
  | loop body rest => body.size + rest.size + 2

/-- One code after another. -/
def append : Code → Code → Code
  | done, next => next
  | act action rest, next => act action (rest.append next)
  | loop body rest, next => loop body (rest.append next)

@[simp] theorem length_instrs (code : Code) : code.instrs.length = code.size := by
  induction code with
  | done => rfl
  | act action rest ih => simp [instrs, size, ih]
  | loop body rest ihb ihr =>
      simp only [instrs, size, List.length_cons, List.length_append, ihb, ihr]
      omega

theorem getElem?_loop_body {body rest : Code} {k : Nat} (hk : k < body.size) :
    (loop body rest).instrs[k + 1]? = body.instrs[k]? := by
  rw [instrs, List.getElem?_cons_succ, List.getElem?_append_left (by rwa [length_instrs])]

theorem getElem?_loop_leave (body rest : Code) :
    (loop body rest).instrs[body.size + 1]? = some .leave := by
  rw [instrs, List.getElem?_cons_succ, ← length_instrs body, List.getElem?_append_right (Nat.le_refl _)]
  simp

theorem getElem?_loop_rest (body rest : Code) (k : Nat) :
    (loop body rest).instrs[body.size + 2 + k]? = rest.instrs[k]? := by
  rw [instrs, show body.size + 2 + k = body.size + (k + 1) + 1 by omega, List.getElem?_cons_succ,
    ← length_instrs body, List.getElem?_append_right (by omega)]
  simp

@[simp] theorem append_done (code : Code) : code.append done = code := by
  induction code with
  | done => rfl
  | act action rest ih => rw [append, ih]
  | loop body rest _ ihr => rw [append, ihr]

end Code

/-! ## The code of a flat list

The list is read from its end. What has been read is a code for its first part, up to the first bracket
that closes a loop opened further to the left, and one more code behind each such bracket. -/

/-- The code that `instrs` starts with, and the codes behind the brackets that close what `instrs` does
not open; `none` when a bracket of `instrs` is never closed. -/
def nestFrom : List Instr → Option (Code × List Code)
  | [] => some (.done, [])
  | .leave :: rest => (nestFrom rest).map fun (code, after) => (.done, code :: after)
  | .enter :: rest =>
    match nestFrom rest with
    | some (body, code :: after) => some (.loop body code, after)
    | _ => none
  | instr :: rest => do
    let action ← instr.action?
    let (code, after) ← nestFrom rest
    return (.act action code, after)

/-- The code of a flat list. -/
def nest (instrs : List Instr) : Option Code :=
  match nestFrom instrs with
  | some (code, []) => some code
  | _ => none

@[simp] theorem nestFrom_act (action : Action) (rest : List Instr) :
    nestFrom (action.instr :: rest)
      = (nestFrom rest).map fun (code, after) => (.act action code, after) := by
  cases h : nestFrom rest <;> cases action <;> simp [nestFrom, Action.instr, Instr.action?, h]

/-- Codes and the brackets between them spell the list they were read from. -/
theorem eq_instrs_of_nestFrom {instrs : List Instr} {code : Code} {after : List Code}
    (h : nestFrom instrs = some (code, after)) :
    instrs = code.instrs ++ after.flatMap fun next => .leave :: next.instrs := by
  induction instrs generalizing code after with
  | nil =>
      injection h with h
      injection h with hcode hafter
      subst hcode hafter
      rfl
  | cons instr rest ih =>
      obtain rfl | rfl | ⟨action, rfl⟩ := instr.kinds
      · rw [nestFrom] at h
        split at h
        · rename_i body next after' hrest
          injection h with h
          injection h with hcode hafter
          subst hcode hafter
          rw [ih hrest]
          simp [Code.instrs]
        · exact absurd h (by simp)
      · rw [nestFrom, Option.map_eq_some_iff] at h
        obtain ⟨⟨next, after'⟩, hrest, heq⟩ := h
        injection heq with hcode hafter
        subst hcode hafter
        rw [ih hrest]
        simp [Code.instrs]
      · rw [nestFrom_act, Option.map_eq_some_iff] at h
        obtain ⟨⟨next, after'⟩, hrest, heq⟩ := h
        injection heq with hcode hafter
        subst hcode hafter
        rw [ih hrest]
        simp [Code.instrs]

/-- What a code spells is read back in front of the code that follows it. -/
theorem nestFrom_instrs_append (code : Code) (tail : List Instr) :
    nestFrom (code.instrs ++ tail)
      = (nestFrom tail).map fun (next, after) => (code.append next, after) := by
  induction code generalizing tail with
  | done => simp [Code.instrs, Code.append]
  | act action rest ih =>
      rw [Code.instrs, List.cons_append, nestFrom_act, ih]
      cases nestFrom tail <;> rfl
  | loop body rest ihb ihr =>
      rw [Code.instrs, List.cons_append, List.append_assoc, List.cons_append, nestFrom, ihb, nestFrom, ihr]
      cases nestFrom tail with
      | none => rfl
      | some found => simp [Code.append]

/-- **Codes and the lists they spell determine each other.** -/
theorem nest_eq_some_iff {instrs : List Instr} {code : Code} :
    nest instrs = some code ↔ code.instrs = instrs := by
  constructor
  · intro h
    rw [nest] at h
    split at h
    · rename_i found hfound
      injection h with h
      subst h
      simpa using (eq_instrs_of_nestFrom hfound).symm
    · exact absurd h (by simp)
  · intro h
    have hfound := nestFrom_instrs_append code []
    rw [List.append_nil, h] at hfound
    simp [nest, hfound, nestFrom]

/-! ## Balance -/

@[simp] theorem depthAfter?_act (depth : Nat) (action : Action) (rest : List Instr) :
    depthAfter? depth (action.instr :: rest) = depthAfter? depth rest := by
  cases action <;> cases depth <;> rfl

theorem depthAfter?_append (depth : Nat) (first second : List Instr) :
    depthAfter? depth (first ++ second)
      = (depthAfter? depth first).bind fun after => depthAfter? after second := by
  induction first generalizing depth with
  | nil => rfl
  | cons instr first ih =>
      cases instr with
      | enter => exact ih (depth + 1)
      | leave =>
          cases depth with
          | zero => rfl
          | succ depth => exact ih depth
      | inc | dec | left | right | read | write => exact ih depth

/-- A list that closes exactly `depth` loops opened before it is read with as many codes left over. -/
theorem depthAfter?_eq_zero_iff (depth : Nat) (instrs : List Instr) :
    depthAfter? depth instrs = some 0
      ↔ ∃ code after, nestFrom instrs = some (code, after) ∧ after.length = depth := by
  induction instrs generalizing depth with
  | nil =>
      rw [depthAfter?, nestFrom, Option.some.injEq]
      constructor
      · rintro rfl
        exact ⟨.done, [], rfl, rfl⟩
      · rintro ⟨code, after, hnil, hlen⟩
        injection hnil with hnil
        injection hnil with _ hafter
        rw [← hlen, ← hafter, List.length_nil]
  | cons instr rest ih =>
      -- a bracket that opens takes what is behind its partner from the front of `after`, one that closes puts it there
      obtain rfl | rfl | ⟨action, rfl⟩ := instr.kinds
      · rw [depthAfter?, ih]
        constructor
        · rintro ⟨body, after, hrest, hlen⟩
          obtain ⟨next, after', rfl⟩ := List.exists_cons_of_length_eq_add_one hlen
          exact ⟨.loop body next, after', by simp [nestFrom, hrest], by simpa using hlen⟩
        · rintro ⟨code, after, hcons, hlen⟩
          rw [nestFrom] at hcons
          split at hcons
          · rename_i body next after' hrest
            injection hcons with hcons
            injection hcons with _ hafter
            subst hafter
            exact ⟨body, next :: after', hrest, by simp [hlen]⟩
          · exact absurd hcons (by simp)
      · cases depth with
        | zero =>
            simp only [depthAfter?, nestFrom, reduceCtorEq, false_iff]
            rintro ⟨code, after, hcons, hlen⟩
            obtain ⟨found, _, heq⟩ := Option.map_eq_some_iff.mp hcons
            injection heq with _ hafter
            subst hafter
            exact absurd hlen (by simp)
        | succ depth =>
            rw [depthAfter?, ih]
            constructor
            · rintro ⟨code, after, hrest, hlen⟩
              exact ⟨.done, code :: after, by simp [nestFrom, hrest], by simp [hlen]⟩
            · rintro ⟨code, after, hcons, hlen⟩
              obtain ⟨⟨next, after'⟩, hrest, heq⟩ := Option.map_eq_some_iff.mp hcons
              injection heq with _ hafter
              subst hafter
              exact ⟨next, after', hrest, by simpa using hlen⟩
      · rw [depthAfter?_act, ih, nestFrom_act]
        constructor
        · rintro ⟨code, after, hrest, hlen⟩
          exact ⟨.act action code, after, by simp [hrest], hlen⟩
        · rintro ⟨code, after, hcons, hlen⟩
          obtain ⟨⟨next, after'⟩, hrest, heq⟩ := Option.map_eq_some_iff.mp hcons
          injection heq with _ hafter
          subst hafter
          exact ⟨next, after', hrest, hlen⟩

/-- **Balanced lists are the lists that codes spell.** -/
theorem isBalanced_iff_nest (instrs : List Instr) :
    isBalanced instrs = true ↔ ∃ code, nest instrs = some code := by
  rw [isBalanced, beq_iff_eq, depthAfter?_eq_zero_iff]
  constructor
  · rintro ⟨code, after, hfound, hlen⟩
    rw [List.length_eq_zero_iff.mp hlen] at hfound
    exact ⟨code, by simp [nest, hfound]⟩
  · rintro ⟨code, h⟩
    rw [nest] at h
    split at h
    · rename_i found hfound
      exact ⟨found, [], hfound, rfl⟩
    · exact absurd h (by simp)

end ProgramArt.Tape
