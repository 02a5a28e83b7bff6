import ProgramArt.Proofs.Tape.Nesting
import Mathlib.Data.List.Nodup

/-!
# The jump table of a tape program

`fillTable` goes through a flat list with a stack of open brackets, whose partners are not known yet. On the list of a
code it finds the brackets of the loops, `Code.pairs`, each with its partner, and the table it makes sends them to
each other (`Program.partner?_eq_some_iff`). No placeholder is left in it (`fillTable_eq_foldl_link`).
-/

namespace ProgramArt.Tape

/-! ## The brackets of the loops

The table builder lists a pair of brackets when it meets the closing one, so the pairs of a body stand
before the pair of its loop. -/

/-- The places that a list of pairs names. -/
def ends (pairs : List (Nat × Nat)) : List Nat :=
  pairs.flatMap fun pair => [pair.1, pair.2]

theorem mem_ends {pairs : List (Nat × Nat)} {i : Nat} :
    i ∈ ends pairs ↔ ∃ j, (i, j) ∈ pairs ∨ (j, i) ∈ pairs := by
  simp only [ends, List.mem_flatMap, List.mem_cons, List.not_mem_nil, or_false, Prod.exists]
  constructor
  · rintro ⟨a, b, hmem, rfl | rfl⟩
    · exact ⟨b, .inl hmem⟩
    · exact ⟨a, .inr hmem⟩
  · rintro ⟨j, hmem | hmem⟩
    · exact ⟨i, j, hmem, .inl rfl⟩
    · exact ⟨j, i, hmem, .inr rfl⟩

namespace Code

/-- The brackets of the loops of a code that stands at `position`, each opening one with its partner. -/
def pairs : (position : Nat) → Code → List (Nat × Nat)
  | _, done => []
  | position, act _ rest => rest.pairs (position + 1)
  | position, loop body rest =>
    body.pairs (position + 1) ++
      (position, position + 1 + body.size) :: rest.pairs (position + 1 + body.size + 1)

theorem ends_pairs_loop (position : Nat) (body rest : Code) :
    ends ((loop body rest).pairs position)
      = ends (body.pairs (position + 1)) ++ position :: (position + 1 + body.size) ::
          ends (rest.pairs (position + 1 + body.size + 1)) := by
  simp [pairs, ends]

/-- The brackets of a code are its instructions that are no actions. -/
theorem mem_ends_pairs {code : Code} {position i : Nat} :
    i ∈ ends (code.pairs position)
      ↔ ∃ k instr, i = position + k ∧ code.instrs[k]? = some instr ∧ instr.isBracket = true := by
  induction code generalizing position with
  | done => simp [pairs, ends, instrs]
  | act action rest ih =>
      rw [pairs, ih]
      constructor
      · rintro ⟨k, instr, rfl, hget, hbracket⟩
        exact ⟨k + 1, instr, by omega, by simpa [instrs] using hget, hbracket⟩
      · rintro ⟨k, instr, rfl, hget, hbracket⟩
        cases k with
        | zero =>
            simp only [instrs, List.getElem?_cons_zero, Option.some.injEq] at hget
            rw [← hget, Action.isBracket_instr] at hbracket
            exact absurd hbracket (by simp)
        | succ k => exact ⟨k, instr, by omega, by simpa [instrs] using hget, hbracket⟩
  | loop body rest ihb ihr =>
      simp only [ends_pairs_loop, List.mem_append, List.mem_cons, ihb, ihr]
      constructor
      · rintro (⟨k, instr, rfl, hget, hbracket⟩ | rfl | rfl | ⟨k, instr, rfl, hget, hbracket⟩)
        · have hk : k < body.size := by
            rw [← length_instrs]
            exact (List.getElem?_eq_some_iff.mp hget).1
          exact ⟨k + 1, instr, by omega, by rw [getElem?_loop_body hk, hget], hbracket⟩
        · exact ⟨0, .enter, rfl, rfl, rfl⟩
        · exact ⟨body.size + 1, .leave, by omega, getElem?_loop_leave body rest, rfl⟩
        · exact ⟨body.size + 2 + k, instr, by omega, by rw [getElem?_loop_rest, hget], hbracket⟩
      · rintro ⟨k, instr, rfl, hget, hbracket⟩
        -- where `k` stands: at the opening bracket, in the body, at the closing one, or behind it
        obtain rfl | ⟨k', rfl, hk⟩ | rfl | ⟨k', rfl⟩ : k = 0 ∨ (∃ k', k = k' + 1 ∧ k' < body.size)
            ∨ k = body.size + 1 ∨ ∃ k', k = body.size + 2 + k' := by
          by_cases h0 : k = 0
          · exact .inl h0
          · by_cases h1 : k - 1 < body.size
            · exact .inr (.inl ⟨k - 1, by omega, h1⟩)
            · by_cases h2 : k = body.size + 1
              · exact .inr (.inr (.inl h2))
              · exact .inr (.inr (.inr ⟨k - body.size - 2, by omega⟩))
        · exact .inr (.inl rfl)
        · rw [getElem?_loop_body hk] at hget
          exact .inl ⟨k', instr, by omega, hget, hbracket⟩
        · exact .inr (.inr (.inl (by omega)))
        · rw [getElem?_loop_rest] at hget
          exact .inr (.inr (.inr ⟨k', instr, by omega, hget, hbracket⟩))

theorem lt_of_mem_ends_pairs {code : Code} {position i : Nat} (h : i ∈ ends (code.pairs position)) :
    position ≤ i ∧ i < position + code.size := by
  obtain ⟨k, instr, rfl, hget, _⟩ := mem_ends_pairs.mp h
  have hk : k < code.instrs.length := (List.getElem?_eq_some_iff.mp hget).1
  rw [length_instrs] at hk
  omega

/-- No bracket belongs to two loops. -/
theorem nodup_ends_pairs (code : Code) (position : Nat) : (ends (code.pairs position)).Nodup := by
  induction code generalizing position with
  | done => simp [pairs, ends]
  | act action rest ih => exact ih (position + 1)
  | loop body rest ihb ihr =>
      rw [ends_pairs_loop, List.nodup_append]
      refine ⟨ihb _, ?_, ?_⟩
      · rw [List.nodup_cons, List.nodup_cons]
        refine ⟨?_, ?_, ihr _⟩
        · intro h
          rcases List.mem_cons.mp h with h | h
          · omega
          · have := lt_of_mem_ends_pairs h
            omega
        · intro h
          have := lt_of_mem_ends_pairs h
          omega
      · rintro a ha b hb rfl
        have hbody := lt_of_mem_ends_pairs ha
        rcases List.mem_cons.mp hb with h | h
        · omega
        · rcases List.mem_cons.mp h with h | h
          · omega
          · have := lt_of_mem_ends_pairs h
            omega

end Code

/-! ## The pairs that are entered -/

/-- The pairs of matching brackets in `instrs`, in the order in which `fillTable` meets their closing brackets. -/
def bracketPairs : (position : Nat) → (pending : List Nat) → List Instr →
    Except Mismatch (List (Nat × Nat))
  | _, [], [] => .ok []
  | _, start :: _, [] => .error (.opening start)
  | position, pending, .enter :: rest => bracketPairs (position + 1) (position :: pending) rest
  | position, [], .leave :: _ => .error (.closing position)
  | position, start :: pending, .leave :: rest =>
    (bracketPairs (position + 1) pending rest).map ((start, position) :: ·)
  | position, pending, _ :: rest => bracketPairs (position + 1) pending rest

/-- Enter a pair in both directions. -/
def JumpTable.link (table : JumpTable) (pair : Nat × Nat) : JumpTable :=
  (table.setIfInBounds pair.1 (some pair.2)).setIfInBounds pair.2 (some pair.1)

/-- The table of a list of pairs over `size` positions. -/
def JumpTable.ofPairs (size : Nat) (pairs : List (Nat × Nat)) : JumpTable :=
  pairs.foldl JumpTable.link (Array.replicate size none)

/-- Two tables differ at most at the open brackets, where `fillTable` has put a `0`. -/
structure JumpTable.SameBut (pending : List Nat) (table clean : JumpTable) : Prop where
  size : table.size = clean.size
  same : ∀ i, i ∉ pending → table[i]? = clean[i]?

namespace JumpTable.SameBut

variable {pending : List Nat} {table clean : JumpTable}

theorem enter (h : SameBut pending table clean) (position : Nat) :
    SameBut (position :: pending) (table.setIfInBounds position (some 0)) clean := by
  refine ⟨by simp [h.size], fun i hi => ?_⟩
  rw [List.mem_cons, not_or] at hi
  rw [Array.getElem?_setIfInBounds_ne (Ne.symm hi.1), h.same i hi.2]

theorem link {start : Nat} (h : SameBut (start :: pending) table clean) (position : Nat) :
    SameBut pending (table.link (start, position)) (clean.link (start, position)) := by
  refine ⟨by simp [JumpTable.link, h.size], fun i hi => ?_⟩
  simp only [JumpTable.link, Array.getElem?_setIfInBounds, Array.size_setIfInBounds, h.size]
  by_cases hstart : start = i
  · simp [hstart]
  · rw [if_neg hstart, if_neg hstart, h.same i (by simp [Ne.symm hstart, hi])]

end JumpTable.SameBut

/-- **No `0` is left in the table:** one pass enters the same pairs as `bracketPairs` lists. -/
theorem fillTable_eq_foldl_link (instrs : List Instr) {position : Nat} {pending : List Nat}
    {table clean : JumpTable} (h : table.SameBut pending clean) :
    fillTable position pending table instrs
      = (bracketPairs position pending instrs).map (·.foldl JumpTable.link clean) := by
  induction instrs generalizing position pending table clean with
  | nil =>
      cases pending with
      | nil =>
          have hsame : table = clean := Array.ext_getElem? fun i => h.same i (by simp)
          rw [fillTable, bracketPairs, hsame]
          rfl
      | cons start pending => rfl
  | cons instr rest ih =>
      cases instr with
      | enter => rw [fillTable, bracketPairs, ih (h.enter position)]
      | leave =>
          cases pending with
          | nil => rfl
          | cons start pending =>
              rw [fillTable, bracketPairs, show (table.setIfInBounds start _).setIfInBounds position _
                = table.link (start, position) from rfl, ih (h.link position)]
              cases bracketPairs (position + 1) pending rest <;> rfl
      | inc | dec | left | right | read | write => cases pending <;> exact ih h

theorem jumpTable_eq_ofPairs (instrs : List Instr) :
    jumpTable instrs = (bracketPairs 0 [] instrs).map (JumpTable.ofPairs instrs.length) :=
  fillTable_eq_foldl_link instrs ⟨rfl, fun _ _ => rfl⟩

@[simp] theorem bracketPairs_act (position : Nat) (pending : List Nat) (action : Action)
    (rest : List Instr) :
    bracketPairs position pending (action.instr :: rest) = bracketPairs (position + 1) pending rest := by
  cases action <;> cases pending <;> rfl

/-- The builder goes through a code without touching the brackets that are open around it, and lists the
brackets of its loops. -/
theorem bracketPairs_instrs_append (code : Code) (position : Nat) (pending : List Nat)
    (tail : List Instr) :
    bracketPairs position pending (code.instrs ++ tail)
      = (bracketPairs (position + code.size) pending tail).map (code.pairs position ++ ·) := by
  induction code generalizing position pending tail with
  | done =>
      simp only [Code.instrs, Code.size, Code.pairs, List.nil_append, Nat.add_zero]
      cases bracketPairs position pending tail <;> rfl
  | act action rest ih =>
      rw [Code.instrs, List.cons_append, bracketPairs_act, ih, Code.pairs, Code.size,
        show position + 1 + rest.size = position + (rest.size + 1) by omega]
  | loop body rest ihb ihr =>
      rw [Code.instrs, List.cons_append, List.append_assoc, List.cons_append, bracketPairs, ihb,
        bracketPairs, ihr, Code.pairs, Code.size,
        show position + 1 + body.size + 1 + rest.size = position + (body.size + rest.size + 2) by omega]
      cases bracketPairs (position + (body.size + rest.size + 2)) pending tail with
      | error mismatch => rfl
      | ok pairs => simp [Except.map]

/-- **The builder finds the brackets of the loops.** -/
theorem bracketPairs_instrs (code : Code) : bracketPairs 0 [] code.instrs = .ok (code.pairs 0) := by
  have h := bracketPairs_instrs_append code 0 [] []
  rw [List.append_nil] at h
  rw [h, bracketPairs]
  simp [Except.map]

/-- The builder only gets through lists that close what is open before them. -/
theorem depthAfter?_of_bracketPairs {position : Nat} {pending : List Nat} {instrs : List Instr}
    {pairs : List (Nat × Nat)} (h : bracketPairs position pending instrs = .ok pairs) :
    depthAfter? pending.length instrs = some 0 := by
  induction instrs generalizing position pending pairs with
  | nil =>
      cases pending with
      | nil => rfl
      | cons start pending => exact absurd h (by simp [bracketPairs])
  | cons instr rest ih =>
      obtain rfl | rfl | ⟨action, rfl⟩ := instr.kinds
      · rw [bracketPairs] at h
        exact ih h
      · cases pending with
        | nil => exact absurd h (by simp [bracketPairs])
        | cons start pending =>
            rw [bracketPairs] at h
            cases hrest : bracketPairs (position + 1) pending rest with
            | error mismatch =>
                rw [hrest] at h
                exact absurd h (by simp [Except.map])
            | ok pairs' => exact ih hrest
      · rw [bracketPairs_act] at h
        rw [depthAfter?_act]
        exact ih h

/-! ## The jump table -/

/-- The partner that a table gives to a place. -/
def JumpTable.at? (table : JumpTable) (i : Nat) : Option Nat :=
  (table[i]?).join

theorem JumpTable.at?_link {table : JumpTable} {pair : Nat × Nat} (hne : pair.1 ≠ pair.2)
    (h₁ : pair.1 < table.size) (h₂ : pair.2 < table.size) (i : Nat) :
    (table.link pair).at? i
      = if i = pair.1 then some pair.2 else if i = pair.2 then some pair.1 else table.at? i := by
  simp only [JumpTable.at?, JumpTable.link, Array.getElem?_setIfInBounds]
  grind

/-- A table that pairs were entered into gives the places they name to each other and leaves all other
places alone. -/
theorem JumpTable.at?_foldl_link (pairs : List (Nat × Nat)) (table : JumpTable)
    (hnodup : (ends pairs).Nodup) (hlt : ∀ i ∈ ends pairs, i < table.size) (i j : Nat) :
    (pairs.foldl JumpTable.link table).at? i = some j
      ↔ (i, j) ∈ pairs ∨ (j, i) ∈ pairs ∨ (i ∉ ends pairs ∧ table.at? i = some j) := by
  induction pairs generalizing table with
  | nil => simp [ends]
  | cons pair rest ih =>
      have hends : ends (pair :: rest) = pair.1 :: pair.2 :: ends rest := by simp [ends]
      rw [hends, List.nodup_cons, List.nodup_cons] at hnodup
      obtain ⟨hfst, hsnd, hrest⟩ := hnodup
      have hne : pair.1 ≠ pair.2 := fun h => hfst (by simp [h])
      have h₁ : pair.1 < table.size := hlt _ (by simp [hends])
      have h₂ : pair.2 < table.size := hlt _ (by simp [hends])
      have hsize : (table.link pair).size = table.size := by simp [JumpTable.link]
      have hfree : ∀ i j, (i, j) ∈ rest ∨ (j, i) ∈ rest → i ∈ ends rest :=
        fun i j h => mem_ends.mpr ⟨j, h⟩
      rw [List.foldl_cons, ih (table.link pair) hrest
        (fun i hi => by rw [hsize]; exact hlt i (by simp [hends, hi])), JumpTable.at?_link hne h₁ h₂, hends]
      obtain ⟨a, b⟩ := pair
      grind

/-- The table of a code enters the brackets of its loops. -/
theorem jumpTable_instrs (code : Code) :
    jumpTable code.instrs = .ok (JumpTable.ofPairs code.size (code.pairs 0)) := by
  rw [jumpTable_eq_ofPairs, bracketPairs_instrs, Code.length_instrs]
  rfl

theorem JumpTable.at?_ofPairs (code : Code) (i j : Nat) :
    (JumpTable.ofPairs code.size (code.pairs 0)).at? i = some j
      ↔ (i, j) ∈ code.pairs 0 ∨ (j, i) ∈ code.pairs 0 := by
  have hlt : ∀ i ∈ ends (code.pairs 0), i < (Array.replicate code.size (none : Option Nat)).size := by
    intro i hi
    rw [Array.size_replicate]
    have := (Code.lt_of_mem_ends_pairs hi).2
    omega
  have hblank : JumpTable.at? (Array.replicate code.size none) i ≠ some j := by
    rw [JumpTable.at?, Array.getElem?_replicate]
    split <;> simp
  have h := JumpTable.at?_foldl_link _ _ (code.nodup_ends_pairs 0) hlt i j
  rw [JumpTable.ofPairs, h]
  simp [hblank]

namespace Program

/-- A balanced list is a program. -/
theorem exists_ofInstrs {instrs : List Instr} (h : isBalanced instrs = true) :
    ∃ program, ofInstrs instrs = .ok program ∧ program.instrs.toList = instrs := by
  obtain ⟨code, hcode⟩ := (isBalanced_iff_nest instrs).mp h
  have htable := jumpTable_instrs code
  rw [nest_eq_some_iff.mp hcode] at htable
  rw [ofInstrs, if_pos h]
  split
  · rename_i jumps hjumps
    exact ⟨_, rfl, rfl⟩
  · rename_i mismatch hmismatch
    rw [htable] at hmismatch
    exact absurd hmismatch (by simp)

/-- The code of a program. -/
def code (program : Program) : Code :=
  (nest program.instrs.toList).getD .done

/-- A program has a table, so its list is balanced. -/
theorem isBalanced_instrs (program : Program) : isBalanced program.instrs.toList = true := by
  have h := program.jumps_eq
  rw [jumpTable_eq_ofPairs] at h
  cases hpairs : bracketPairs 0 [] program.instrs.toList with
  | error mismatch =>
      rw [hpairs] at h
      exact absurd h (by simp [Except.map])
  | ok pairs =>
      rw [isBalanced, beq_iff_eq]
      exact depthAfter?_of_bracketPairs hpairs

/-- A program is made of its own instructions: the table of jumps is told by them. -/
theorem ofInstrs_instrs (program : Program) : ofInstrs program.instrs.toList = .ok program := by
  obtain ⟨again, hagain, hinstrs⟩ := exists_ofInstrs program.isBalanced_instrs
  have hjumps := again.jumps_eq
  rw [hinstrs, program.jumps_eq] at hjumps
  rw [hagain]
  cases program
  cases again
  cases hjumps
  cases Array.toList_inj.mp hinstrs
  rfl

theorem nest_instrs (program : Program) : nest program.instrs.toList = some program.code := by
  obtain ⟨code, hcode⟩ := (isBalanced_iff_nest _).mp program.isBalanced_instrs
  rw [Program.code, hcode, Option.getD_some]

theorem instrs_code (program : Program) : program.code.instrs = program.instrs.toList :=
  nest_eq_some_iff.mp program.nest_instrs

theorem size_code (program : Program) : program.code.size = program.size := by
  rw [← Code.length_instrs, instrs_code, Array.length_toList, size]

/-- **The table sends the brackets of each loop to each other,** and no other place anywhere. -/
theorem partner?_eq_some_iff (program : Program) (i j : Nat) :
    program.partner? i = some j ↔ (i, j) ∈ program.code.pairs 0 ∨ (j, i) ∈ program.code.pairs 0 := by
  have htable := program.jumps_eq
  rw [← instrs_code, jumpTable_instrs] at htable
  injection htable with htable
  rw [← JumpTable.at?_ofPairs, htable, partner?, if_pos (Int.natCast_nonneg i), Int.toNat_natCast]
  rfl

/-- Every bracket has a partner inside the program. -/
theorem exists_partner {program : Program} {i : Nat} {instr : Instr}
    (hget : program.instrs.toList[i]? = some instr) (hbracket : instr.isBracket = true) :
    ∃ j, program.partner? i = some j ∧ j < program.size := by
  have hmem : i ∈ ends (program.code.pairs 0) :=
    Code.mem_ends_pairs.mpr ⟨i, instr, by omega, by rw [instrs_code]; exact hget, hbracket⟩
  obtain ⟨j, hj⟩ := mem_ends.mp hmem
  have hlt := (Code.lt_of_mem_ends_pairs (mem_ends.mpr ⟨i, hj.symm⟩)).2
  rw [size_code] at hlt
  exact ⟨j, (program.partner?_eq_some_iff i j).mpr hj, by omega⟩

end Program

end ProgramArt.Tape
