import ProgramArt.Proofs.Tape.Matching
import Mathlib.Order.Bounds.Basic
import Mathlib.Tactic.TFAE

/-!
# The grammar of the brackets

There are three ways to say that the brackets of a list of instructions belong together: a count of the open ones that
never falls below zero and ends there, a stack of their positions that is never popped when it is empty and is empty
in the end, and a grammar, `WellNested`. They accept the same lists (`bracket_checks_agree`). For the others, the
stack also tells which bracket is to blame, and this is said here by balances (`DipsAt`) and by the grammar
(`Lonely`).
-/

namespace ProgramArt.Tape

/-! ## The grammar -/

/-- The lists whose brackets belong together: an empty one, an instruction that is no bracket and such a
list, or a loop and such a list. -/
inductive WellNested : List Instr → Prop
  | nil : WellNested []
  | cons {instr : Instr} {rest : List Instr} (hinstr : instr.isBracket = false)
      (hrest : WellNested rest) : WellNested (instr :: rest)
  | loop {body rest : List Instr} (hbody : WellNested body) (hrest : WellNested rest) :
      WellNested (.enter :: (body ++ .leave :: rest))

theorem depthAfter?_cons_of_not_isBracket {instr : Instr} (h : instr.isBracket = false) (depth : Nat)
    (rest : List Instr) : depthAfter? depth (instr :: rest) = depthAfter? depth rest := by
  cases instr <;> cases depth <;> simp_all [Instr.isBracket, depthAfter?]

theorem Instr.exists_action {instr : Instr} (h : instr.isBracket = false) :
    ∃ action : Action, instr = action.instr := by
  obtain rfl | rfl | haction := instr.kinds
  · simp [Instr.isBracket] at h
  · simp [Instr.isBracket] at h
  · exact haction

/-- The grammar derives the lists that codes spell. -/
theorem wellNested_iff_code {instrs : List Instr} :
    WellNested instrs ↔ ∃ code : Code, code.instrs = instrs := by
  constructor
  · intro h
    induction h with
    | nil => exact ⟨.done, rfl⟩
    | cons hinstr _ ih =>
        obtain ⟨action, rfl⟩ := Instr.exists_action hinstr
        obtain ⟨rest, rfl⟩ := ih
        exact ⟨.act action rest, rfl⟩
    | loop _ _ ihbody ihrest =>
        obtain ⟨body, rfl⟩ := ihbody
        obtain ⟨rest, rfl⟩ := ihrest
        exact ⟨.loop body rest, rfl⟩
  · rintro ⟨code, rfl⟩
    induction code with
    | done => exact .nil
    | act action rest ih => exact .cons action.isBracket_instr ih
    | loop body rest ihbody ihrest => exact .loop ihbody ihrest

/-- **The count and the grammar accept the same lists.** -/
theorem isBalanced_iff_wellNested {instrs : List Instr} :
    isBalanced instrs = true ↔ WellNested instrs := by
  rw [isBalanced_iff_nest, wellNested_iff_code]
  simp [nest_eq_some_iff]

theorem depthAfter?_eq_zero_iff_wellNested {instrs : List Instr} :
    depthAfter? 0 instrs = some 0 ↔ WellNested instrs := by
  rw [← isBalanced_iff_wellNested, isBalanced, beq_iff_eq]

namespace WellNested

variable {body first second : List Instr}

/-- A list of the grammar closes what it opens and nothing else. -/
theorem depthAfter?_append (h : WellNested first) (depth : Nat) (rest : List Instr) :
    depthAfter? depth (first ++ rest) = depthAfter? depth rest := by
  induction h generalizing depth rest with
  | nil => rfl
  | cons hinstr _ ih =>
      rw [List.cons_append, depthAfter?_cons_of_not_isBracket hinstr, ih]
  | loop _ _ ihbody ihrest =>
      simp [depthAfter?, ihbody, ihrest]

protected theorem append (hfirst : WellNested first) (hsecond : WellNested second) :
    WellNested (first ++ second) := by
  rw [← depthAfter?_eq_zero_iff_wellNested, hfirst.depthAfter?_append,
    depthAfter?_eq_zero_iff_wellNested]
  exact hsecond

/-- A loop by itself. -/
theorem wrapped (h : WellNested body) : WellNested (.enter :: (body ++ [.leave])) :=
  .loop h .nil

/-- No list of the grammar goes on behind another one with a closing bracket. -/
theorem not_append_leave (h : WellNested first) (rest : List Instr) :
    ¬ WellNested (first ++ .leave :: rest) := by
  rw [← depthAfter?_eq_zero_iff_wellNested, h.depthAfter?_append]
  simp [depthAfter?]

end WellNested

/-! ## Balances -/

/-- How many more brackets open than close. -/
def balance (instrs : List Instr) : Int :=
  instrs.count .enter - instrs.count .leave

/-- The balance is first negative behind the instruction at a position. -/
def DipsAt (instrs : List Instr) (i : Nat) : Prop :=
  i < instrs.length ∧ balance (instrs.take (i + 1)) < 0 ∧ ∀ k ≤ i, 0 ≤ balance (instrs.take k)

@[simp] theorem balance_nil : balance [] = 0 := rfl

@[simp] theorem balance_enter (rest : List Instr) :
    balance (.enter :: rest) = balance rest + 1 := by
  simp [balance]
  omega

@[simp] theorem balance_leave (rest : List Instr) :
    balance (.leave :: rest) = balance rest - 1 := by
  simp [balance]
  omega

@[simp] theorem balance_act (action : Action) (rest : List Instr) :
    balance (action.instr :: rest) = balance rest := by
  cases action <;> simp [balance, Action.instr]

theorem balance_append (first second : List Instr) :
    balance (first ++ second) = balance first + balance second := by
  simp [balance]
  omega

/-- The count of the open brackets is the balance, unless it has been negative on the way. -/
theorem depthAfter?_eq_some_iff {depth after : Nat} {instrs : List Instr} :
    depthAfter? depth instrs = some after
      ↔ (after : Int) = depth + balance instrs ∧ ∀ k, 0 ≤ depth + balance (instrs.take k) := by
  induction instrs generalizing depth with
  | nil =>
      simp only [depthAfter?, Option.some.injEq, balance_nil, List.take_nil]
      constructor
      · rintro rfl
        exact ⟨by omega, fun _ => by omega⟩
      · rintro ⟨hafter, -⟩
        omega
  | cons instr rest ih =>
      -- a longer list has the prefixes of its tail and the empty one
      have hprefixes : (∀ k, 0 ≤ (depth : Int) + balance ((instr :: rest).take k))
          ↔ ∀ k, 0 ≤ (depth : Int) + balance (instr :: rest.take k) := by
        constructor
        · intro h k
          simpa using h (k + 1)
        · intro h k
          cases k with
          | zero => simp
          | succ k => simpa using h k
      rw [hprefixes]
      obtain rfl | rfl | ⟨action, rfl⟩ := instr.kinds
      · rw [depthAfter?, ih]
        simp only [balance_enter]
        constructor
        · rintro ⟨hafter, h⟩
          exact ⟨by omega, fun k => by have := h k; omega⟩
        · rintro ⟨hafter, h⟩
          exact ⟨by omega, fun k => by have := h k; omega⟩
      · cases depth with
        | zero =>
            simp only [depthAfter?, balance_leave, reduceCtorEq, false_iff, not_and]
            intro _ h
            have := h 0
            simp at this
        | succ depth =>
            rw [depthAfter?, ih]
            simp only [balance_leave]
            constructor
            · rintro ⟨hafter, h⟩
              exact ⟨by omega, fun k => by have := h k; omega⟩
            · rintro ⟨hafter, h⟩
              exact ⟨by omega, fun k => by have := h k; omega⟩
      · rw [depthAfter?_act, ih]
        simp only [balance_act]

theorem nonneg_balance_of_wellNested {instrs : List Instr} (h : WellNested instrs) :
    balance instrs = 0 ∧ ∀ k, 0 ≤ balance (instrs.take k) := by
  have hdepth := depthAfter?_eq_some_iff.mp (depthAfter?_eq_zero_iff_wellNested.mpr h)
  simp only [Int.natCast_zero, Int.zero_add] at hdepth
  exact ⟨hdepth.1.symm, hdepth.2⟩

/-- The balance of a list is first negative behind a closing bracket that follows a list of the
grammar. -/
theorem dipsAt_iff {instrs : List Instr} {i : Nat} :
    DipsAt instrs i
      ↔ ∃ first rest, instrs = first ++ .leave :: rest ∧ WellNested first ∧ first.length = i := by
  constructor
  · rintro ⟨hi, hdip, hbefore⟩
    -- the last step goes from a balance that is not negative to one that is
    have hstep : balance (instrs.take (i + 1)) = balance (instrs.take i) + balance [instrs[i]] := by
      rw [← List.take_append_getElem hi, balance_append]
    have hleave : instrs[i] = .leave := by
      have hle := hbefore i (Nat.le_refl i)
      obtain h | h | ⟨action, h⟩ := instrs[i].kinds
      · rw [hstep, h, balance_enter, balance_nil] at hdip
        omega
      · exact h
      · rw [hstep, h, balance_act, balance_nil] at hdip
        omega
    refine ⟨instrs.take i, instrs.drop (i + 1), ?_, ?_, by simp; omega⟩
    · rw [← hleave, List.getElem_cons_drop, List.take_append_drop]
    · have hzero : balance (instrs.take i) = 0 := by
        have hle := hbefore i (Nat.le_refl i)
        rw [hstep, hleave, balance_leave, balance_nil] at hdip
        omega
      rw [← depthAfter?_eq_zero_iff_wellNested, depthAfter?_eq_some_iff]
      refine ⟨by simp [hzero], fun k => ?_⟩
      rw [List.take_take]
      simpa using hbefore (min k i) (Nat.min_le_right k i)
  · rintro ⟨first, rest, rfl, hfirst, rfl⟩
    obtain ⟨hzero, hbefore⟩ := nonneg_balance_of_wellNested hfirst
    refine ⟨by simp, ?_, fun k hk => ?_⟩
    · rw [List.take_append, List.take_of_length_le (Nat.le_succ _)]
      simp [balance_append, hzero]
    · rw [List.take_append_of_le_length hk]
      exact hbefore k

/-! ## Partners -/

/-- Two brackets belong to each other: the one opens, the other closes, and what stands between them is
derived by the grammar. -/
structure Partners (instrs : List Instr) (i j : Nat) : Prop where
  lt : i < j
  opens : instrs[i]? = some .enter
  closes : instrs[j]? = some .leave
  inside : WellNested ((instrs.take j).drop (i + 1))

/-- An opening bracket that has no partner. -/
def Lonely (instrs : List Instr) (i : Nat) : Prop :=
  instrs[i]? = some .enter ∧ ∀ j, ¬ Partners instrs i j

/-- Brackets belong to each other if a list of the grammar stands between them. -/
theorem partners_iff {instrs : List Instr} {i j : Nat} :
    Partners instrs i j
      ↔ ∃ before body after, instrs = before ++ .enter :: (body ++ .leave :: after)
          ∧ WellNested body ∧ before.length = i ∧ before.length + 1 + body.length = j := by
  constructor
  · rintro ⟨hlt, hopens, hcloses, hinside⟩
    obtain ⟨hi, hopens⟩ := List.getElem?_eq_some_iff.mp hopens
    obtain ⟨hj, hcloses⟩ := List.getElem?_eq_some_iff.mp hcloses
    refine ⟨instrs.take i, (instrs.take j).drop (i + 1), instrs.drop (j + 1), ?_, hinside, ?_, ?_⟩
    · have htail : instrs.drop (i + 1) = (instrs.take j).drop (i + 1) ++ .leave :: instrs.drop (j + 1) := by
        conv_lhs => rw [← List.take_append_drop j instrs]
        rw [List.drop_append_of_le_length (by simp; omega), ← List.getElem_cons_drop hj, hcloses]
      rw [← htail, ← hopens, List.getElem_cons_drop, List.take_append_drop]
    · simp
      omega
    · simp
      omega
  · rintro ⟨before, body, after, rfl, hbody, rfl, rfl⟩
    refine ⟨by omega, by simp, ?_, ?_⟩
    · rw [List.getElem?_append_right (by omega),
        show before.length + 1 + body.length - before.length = body.length + 1 by omega,
        List.getElem?_cons_succ, List.getElem?_append_right (Nat.le_refl _)]
      simp
    · have htake : (before ++ .enter :: (body ++ .leave :: after)).take (before.length + 1 + body.length)
          = before ++ .enter :: body := by
        rw [Nat.add_assoc, List.take_length_add_append, Nat.add_comm 1, List.take_succ_cons,
          List.take_left]
      rw [htake, show before.length + 1 = (before ++ [Instr.enter]).length by simp,
        show before ++ .enter :: body = (before ++ [Instr.enter]) ++ body by simp, List.drop_left]
      exact hbody

theorem Partners.of_append {instrs : List Instr} {i j : Nat} (h : Partners instrs i j)
    (before after : List Instr) :
    Partners (before ++ (instrs ++ after)) (before.length + i) (before.length + j) := by
  obtain ⟨before', body, after', rfl, hbody, rfl, rfl⟩ := partners_iff.mp h
  exact partners_iff.mpr
    ⟨before ++ before', body, after' ++ after, by simp, hbody, by simp, by simp; omega⟩

/-- In a list of the grammar every opening bracket has a partner. -/
theorem WellNested.exists_partner {instrs : List Instr} (h : WellNested instrs) {i : Nat}
    (hopens : instrs[i]? = some .enter) : ∃ j, Partners instrs i j := by
  induction h generalizing i with
  | nil => simp at hopens
  | @cons instr rest hinstr _ ih =>
      cases i with
      | zero =>
          simp only [List.getElem?_cons_zero, Option.some.injEq] at hopens
          simp [hopens, Instr.isBracket] at hinstr
      | succ i =>
          obtain ⟨j, hj⟩ := ih (by simpa using hopens)
          have hshift := hj.of_append [instr] []
          simp only [List.append_nil, List.singleton_append, List.length_singleton] at hshift
          exact ⟨1 + j, by rwa [Nat.add_comm 1 i] at hshift⟩
  | @loop body rest hbody hrest ihbody ihrest =>
      cases i with
      | zero => exact ⟨_, partners_iff.mpr ⟨[], body, rest, rfl, hbody, rfl, rfl⟩⟩
      | succ i =>
          rw [List.getElem?_cons_succ] at hopens
          -- the bracket is in the first loop or behind it, and its partner with it
          by_cases hi : i < body.length
          · rw [List.getElem?_append_left hi] at hopens
            obtain ⟨j, hj⟩ := ihbody hopens
            have hshift := hj.of_append [.enter] (.leave :: rest)
            exact ⟨1 + j, by rwa [List.length_singleton, Nat.add_comm 1 i] at hshift⟩
          · rw [List.getElem?_append_right (by omega)] at hopens
            obtain ⟨k, hk⟩ : ∃ k, i = body.length + k := ⟨i - body.length, by omega⟩
            cases k with
            | zero => simp [hk] at hopens
            | succ k =>
                obtain ⟨j, hj⟩ := ihrest (i := k) (by simpa [hk] using hopens)
                have hshift := hj.of_append (.enter :: (body ++ [.leave])) []
                refine ⟨body.length + 2 + j, ?_⟩
                simpa [hk, Nat.add_assoc, Nat.add_comm, Nat.add_left_comm] using hshift

/-- The last opening bracket without a partner is the one behind which the grammar derives the rest. -/
theorem isGreatest_lonely {first body : List Instr} (hbody : WellNested body) :
    IsGreatest {i | Lonely (first ++ .enter :: body) i} first.length := by
  constructor
  · refine ⟨by simp, fun j hj => ?_⟩
    obtain ⟨before, inside, after, heq, hinside, hbefore, -⟩ := partners_iff.mp hj
    have htail := (List.append_inj heq hbefore.symm).2
    rw [List.cons.injEq] at htail
    rw [htail.2] at hbody
    exact hinside.not_append_leave after hbody
  · rintro i ⟨hopens, hlonely⟩
    by_contra hlt
    obtain ⟨k, rfl⟩ : ∃ k, i = (first ++ [Instr.enter]).length + k := ⟨i - first.length - 1, by simp; omega⟩
    have heq : first ++ .enter :: body = (first ++ [.enter]) ++ (body ++ []) := by simp
    rw [heq, List.getElem?_append_right (by omega), Nat.add_sub_cancel_left, List.append_nil] at hopens
    obtain ⟨j, hj⟩ := hbody.exists_partner hopens
    have hshift := hj.of_append (first ++ [.enter]) []
    rw [← heq] at hshift
    exact hlonely _ hshift

/-! ## What the table builder finds -/

/-- A list that leaves brackets open ends with the last of them and a list of the grammar. -/
theorem exists_open_of_depthAfter? {instrs : List Instr} {depth : Nat}
    (h : depthAfter? 0 instrs = some (depth + 1)) :
    ∃ first body, instrs = first ++ .enter :: body ∧ WellNested body
      ∧ depthAfter? 0 first = some depth := by
  induction hlen : instrs.length using Nat.strongRecOn generalizing instrs depth with
  | ind n ih =>
      rcases instrs.eq_nil_or_concat with rfl | ⟨front, last, rfl⟩
      · simp [depthAfter?] at h
      · rw [List.concat_eq_append] at h hlen ⊢
        obtain ⟨before, hfront, hlast⟩ := Option.bind_eq_some_iff.mp
          ((ProgramArt.Tape.depthAfter?_append 0 front [last]).symm.trans h)
        have hshort : front.length < n := by simp at hlen; omega
        obtain rfl | rfl | ⟨action, rfl⟩ := last.kinds
        · simp only [depthAfter?, Option.some.injEq, Nat.add_right_cancel_iff] at hlast
          exact ⟨front, [], rfl, .nil, by rw [hfront, hlast]⟩
        · -- the last bracket closes a loop, and the one that is still open stands before that loop
          cases before with
          | zero => simp [depthAfter?] at hlast
          | succ before =>
              simp only [depthAfter?, Option.some.injEq] at hlast
              subst hlast
              obtain ⟨outer, body, rfl, hbody, houter⟩ := ih _ hshort hfront rfl
              have hshorter : outer.length < n := by simp at hshort; omega
              obtain ⟨first, inner, rfl, hinner, hfirst⟩ := ih _ hshorter houter rfl
              refine ⟨first, inner ++ .enter :: (body ++ [.leave]), by simp, ?_, hfirst⟩
              exact hinner.append hbody.wrapped
        · rw [depthAfter?_act] at hlast
          simp only [depthAfter?, Option.some.injEq] at hlast
          subst hlast
          obtain ⟨first, body, rfl, hbody, hfirst⟩ := ih _ hshort hfront rfl
          refine ⟨first, body ++ [action.instr], by simp, ?_, hfirst⟩
          exact hbody.append (.cons action.isBracket_instr .nil)

theorem exists_dipsAt_of_depthAfter? {instrs : List Instr} (h : depthAfter? 0 instrs = none) :
    ∃ i, DipsAt instrs i := by
  by_contra hnone
  -- the prefixes have no negative balance, one after the other
  have hall : ∀ k, 0 ≤ balance (instrs.take k) := by
    intro k
    induction k using Nat.strongRecOn with
    | ind k ih =>
        by_contra hneg
        cases k with
        | zero => simp at hneg
        | succ k =>
            by_cases hk : k < instrs.length
            · exact hnone ⟨k, hk, by omega, fun j hj => ih j (by omega)⟩
            · have hle := ih k (by omega)
              rw [List.take_of_length_le (by omega)] at hle hneg
              omega
  have hsome : depthAfter? 0 instrs = some (balance instrs).toNat := by
    rw [depthAfter?_eq_some_iff]
    have hle := hall instrs.length
    rw [List.take_length] at hle
    exact ⟨by simp; omega, by simpa using hall⟩
  simp [hsome] at h

/-- A list is derived by the grammar, or its balance falls below zero, or it ends with an opening bracket
and a list of the grammar. -/
theorem wellNested_or_dipsAt_or_open (instrs : List Instr) :
    WellNested instrs ∨ (∃ i, DipsAt instrs i)
      ∨ ∃ first body depth, instrs = first ++ .enter :: body ∧ WellNested body
          ∧ depthAfter? 0 first = some depth := by
  cases hdepth : depthAfter? 0 instrs with
  | none => exact .inr (.inl (exists_dipsAt_of_depthAfter? hdepth))
  | some depth =>
      cases depth with
      | zero => exact .inl (depthAfter?_eq_zero_iff_wellNested.mp hdepth)
      | succ depth =>
          obtain ⟨first, body, heq, hbody, hfirst⟩ := exists_open_of_depthAfter? hdepth
          exact .inr (.inr ⟨first, body, depth, heq, hbody, hfirst⟩)

/-- The builder goes through every list whose balance is never negative, and the brackets that are then
open are on its stack. -/
theorem exists_bracketPairs_append {front : List Instr} {depth : Nat} (position : Nat) (pending : List Nat)
    (h : depthAfter? pending.length front = some depth) :
    ∃ pending' pairs, pending'.length = depth ∧ ∀ rest,
      bracketPairs position pending (front ++ rest)
        = (bracketPairs (position + front.length) pending' rest).map (pairs ++ ·) := by
  induction front generalizing position pending with
  | nil =>
      simp only [depthAfter?, Option.some.injEq] at h
      refine ⟨pending, [], h, fun rest => ?_⟩
      cases hrest : bracketPairs position pending rest <;> simp [Except.map, hrest]
  | cons instr front ih =>
      have hlen : position + (instr :: front).length = position + 1 + front.length := by simp; omega
      rw [hlen]
      obtain rfl | rfl | ⟨action, rfl⟩ := instr.kinds
      · rw [depthAfter?] at h
        obtain ⟨pending', pairs, hpending, hpairs⟩ := ih (position + 1) (position :: pending) h
        exact ⟨pending', pairs, hpending, fun rest => by rw [List.cons_append, bracketPairs, hpairs]⟩
      · cases pending with
        | nil => simp [depthAfter?] at h
        | cons start pending =>
            rw [List.length_cons, depthAfter?] at h
            obtain ⟨pending', pairs, hpending, hpairs⟩ := ih (position + 1) pending h
            refine ⟨pending', (start, position) :: pairs, hpending, fun rest => ?_⟩
            rw [List.cons_append, bracketPairs, hpairs]
            cases bracketPairs (position + 1 + front.length) pending' rest <;> simp [Except.map]
      · rw [depthAfter?_act] at h
        obtain ⟨pending', pairs, hpending, hpairs⟩ := ih (position + 1) pending h
        exact ⟨pending', pairs, hpending, fun rest => by rw [List.cons_append, bracketPairs_act, hpairs]⟩

theorem bracketPairs_append_of_wellNested {body : List Instr} (h : WellNested body) (position : Nat)
    (pending : List Nat) (rest : List Instr) :
    ∃ pairs, bracketPairs position pending (body ++ rest)
      = (bracketPairs (position + body.length) pending rest).map (pairs ++ ·) := by
  obtain ⟨code, rfl⟩ := wellNested_iff_code.mp h
  exact ⟨code.pairs position, by rw [bracketPairs_instrs_append, Code.length_instrs]⟩

/-- The builder has a table for the lists of the grammar. -/
theorem exists_jumpTable_of_wellNested {instrs : List Instr} (h : WellNested instrs) :
    ∃ table, jumpTable instrs = .ok table := by
  obtain ⟨code, rfl⟩ := wellNested_iff_code.mp h
  exact ⟨_, jumpTable_instrs code⟩

/-- The builder blames a closing bracket behind which the balance is negative for the first time. -/
theorem jumpTable_of_dipsAt {instrs : List Instr} {i : Nat} (h : DipsAt instrs i) :
    jumpTable instrs = .error (.closing i) := by
  obtain ⟨first, rest, rfl, hfirst, rfl⟩ := dipsAt_iff.mp h
  obtain ⟨pairs, hpairs⟩ := bracketPairs_append_of_wellNested hfirst 0 [] (.leave :: rest)
  rw [jumpTable_eq_ofPairs, hpairs, bracketPairs]
  simp [Except.map]

/-- The builder blames the last opening bracket that stays open, if all closing brackets are in order. -/
theorem jumpTable_of_open {first body : List Instr} {depth : Nat} (hbody : WellNested body)
    (hfirst : depthAfter? 0 first = some depth) :
    jumpTable (first ++ .enter :: body) = .error (.opening first.length) := by
  obtain ⟨pending, pairs, -, hpairs⟩ := exists_bracketPairs_append 0 [] hfirst
  obtain ⟨inner, hinner⟩ := bracketPairs_append_of_wellNested hbody (first.length + 1)
    (first.length :: pending) []
  rw [List.append_nil, bracketPairs] at hinner
  rw [jumpTable_eq_ofPairs, hpairs, bracketPairs, Nat.zero_add, hinner]
  simp [Except.map]

theorem not_dipsAt_of_depthAfter? {instrs : List Instr} {depth i : Nat}
    (h : depthAfter? 0 instrs = some depth) : ¬ DipsAt instrs i := by
  rintro ⟨-, hdip, -⟩
  have hle := (depthAfter?_eq_some_iff.mp h).2 (i + 1)
  simp only [Int.natCast_zero, Int.zero_add] at hle
  omega

theorem not_dipsAt_of_open {first body : List Instr} {depth i : Nat} (hbody : WellNested body)
    (hfirst : depthAfter? 0 first = some depth) : ¬ DipsAt (first ++ .enter :: body) i := by
  have hdepth : depthAfter? 0 (first ++ .enter :: (body ++ [])) = some (depth + 1) := by
    rw [depthAfter?_append, hfirst, Option.bind_some, depthAfter?, hbody.depthAfter?_append,
      depthAfter?]
  rw [List.append_nil] at hdepth
  exact not_dipsAt_of_depthAfter? hdepth

theorem not_lonely_of_wellNested {instrs : List Instr} (h : WellNested instrs) (i : Nat) :
    ¬ Lonely instrs i := by
  rintro ⟨hopens, hlonely⟩
  obtain ⟨j, hj⟩ := h.exists_partner hopens
  exact hlonely j hj

/-- **Which closing bracket the builder blames.** -/
theorem jumpTable_closing_iff {instrs : List Instr} {i : Nat} :
    jumpTable instrs = .error (.closing i) ↔ DipsAt instrs i := by
  refine ⟨fun h => ?_, jumpTable_of_dipsAt⟩
  rcases wellNested_or_dipsAt_or_open instrs with hnested | ⟨k, hk⟩ | ⟨first, body, depth, rfl, hbody, hfirst⟩
  · obtain ⟨table, htable⟩ := exists_jumpTable_of_wellNested hnested
    simp [htable] at h
  · simp only [jumpTable_of_dipsAt hk, Except.error.injEq, Mismatch.closing.injEq] at h
    rwa [← h]
  · simp [jumpTable_of_open hbody hfirst] at h

/-- **Which opening bracket the builder blames.** -/
theorem jumpTable_opening_iff {instrs : List Instr} {i : Nat} :
    jumpTable instrs = .error (.opening i)
      ↔ (∀ k, ¬ DipsAt instrs k) ∧ IsGreatest {k | Lonely instrs k} i := by
  rcases wellNested_or_dipsAt_or_open instrs with hnested | ⟨k, hk⟩ | ⟨first, body, depth, rfl, hbody, hfirst⟩
  · obtain ⟨table, htable⟩ := exists_jumpTable_of_wellNested hnested
    simp only [htable, reduceCtorEq, false_iff, not_and]
    intro _ hgreatest
    exact not_lonely_of_wellNested hnested i hgreatest.1
  · simp only [jumpTable_of_dipsAt hk, Except.error.injEq, reduceCtorEq, false_iff, not_and]
    intro hnone
    exact absurd hk (hnone k)
  · rw [jumpTable_of_open hbody hfirst, Except.error.injEq, Mismatch.opening.injEq]
    constructor
    · rintro rfl
      exact ⟨fun k => not_dipsAt_of_open hbody hfirst, isGreatest_lonely hbody⟩
    · rintro ⟨-, hgreatest⟩
      exact (isGreatest_lonely hbody).unique hgreatest

/-- **The builder has a table for the lists of the grammar only.** -/
theorem jumpTable_ok_iff {instrs : List Instr} :
    (∃ table, jumpTable instrs = .ok table) ↔ WellNested instrs := by
  refine ⟨?_, exists_jumpTable_of_wellNested⟩
  rintro ⟨table, htable⟩
  rcases wellNested_or_dipsAt_or_open instrs with hnested | ⟨k, hk⟩ | ⟨first, body, depth, rfl, hbody, hfirst⟩
  · exact hnested
  · simp [jumpTable_of_dipsAt hk] at htable
  · simp [jumpTable_of_open hbody hfirst] at htable

/-! ## Programs -/

theorem Program.ofInstrs_of_not_wellNested {instrs : List Instr} (h : ¬ WellNested instrs) :
    Program.ofInstrs instrs = .error (.unbalanced instrs) := by
  rw [← isBalanced_iff_wellNested] at h
  simp [Program.ofInstrs, h]

/-- The characters that spell instructions. -/
def instrChars : List Char := ['+', '-', '<', '>', '[', ']', ',', '.']

theorem Instr.ofChar?_eq_none {c : Char} (h : c ∉ instrChars) : Instr.ofChar? c = none := by
  simp only [instrChars, List.mem_cons, List.not_mem_nil, or_false, not_or] at h
  unfold Instr.ofChar?
  split <;> simp_all

theorem Instr.exists_toChar {c : Char} (h : c ∈ instrChars) :
    ∃ instr : Instr, Instr.ofChar? c = some instr ∧ instr.toChar = c := by
  simp only [instrChars, List.mem_cons, List.not_mem_nil, or_false] at h
  rcases h with rfl | rfl | rfl | rfl | rfl | rfl | rfl | rfl <;> exact ⟨_, rfl, rfl⟩

/-- The instructions of a text spell its characters that are no comments. -/
theorem toList_spell_read (text : String) :
    (spell (read text)).toList = text.toList.filter (· ∈ instrChars) := by
  rw [spell, String.toList_ofList, read]
  induction text.toList with
  | nil => rfl
  | cons c rest ih =>
      by_cases hc : c ∈ instrChars
      · obtain ⟨instr, hread, hchar⟩ := Instr.exists_toChar hc
        simp [hread, hchar, hc, ih]
      · simp [Instr.ofChar?_eq_none hc, hc, ih]

/-- **The checks of the brackets agree.** For every list of instructions, the count of open brackets accepts
it, the table builder gets through it and the grammar derives it, or none of the three. The builder blames the
closing bracket behind which the balance is negative for the first time or, if there is none, the last opening
bracket without a partner. So a list is a program, or its brackets are reported as unbalanced, and the builder
has no say in it; and a text is a program exactly if the characters in it that spell instructions are
balanced. -/
theorem bracket_checks_agree :
    (∀ instrs : List Instr,
      [isBalanced instrs = true, ∃ table, jumpTable instrs = .ok table, WellNested instrs].TFAE
      ∧ (∀ i, jumpTable instrs = .error (.closing i) ↔ DipsAt instrs i)
      ∧ (∀ i, jumpTable instrs = .error (.opening i)
          ↔ (∀ k, ¬ DipsAt instrs k) ∧ IsGreatest {k | Lonely instrs k} i)
      ∧ (∀ mismatch, Program.ofInstrs instrs ≠ .error (.unmatched mismatch))
      ∧ (WellNested instrs → ∃ program, Program.ofInstrs instrs = .ok program
          ∧ program.instrs.toList = instrs)
      ∧ (¬ WellNested instrs → Program.ofInstrs instrs = .error (.unbalanced instrs)))
    ∧ ∀ text : String, ∃ instrs, (spell instrs).toList = text.toList.filter (· ∈ instrChars)
      ∧ (Program.parse text = .error (.unbalanced instrs) ↔ ¬ WellNested instrs)
      ∧ ((∃ program, Program.parse text = .ok program ∧ program.instrs.toList = instrs)
          ↔ WellNested instrs) := by
  have hprogram : ∀ instrs, WellNested instrs →
      ∃ program, Program.ofInstrs instrs = .ok program ∧ program.instrs.toList = instrs :=
    fun instrs h => Program.exists_ofInstrs (isBalanced_iff_wellNested.mpr h)
  constructor
  · intro instrs
    refine ⟨?_, fun i => jumpTable_closing_iff, fun i => jumpTable_opening_iff, ?_, hprogram instrs,
      Program.ofInstrs_of_not_wellNested⟩
    · tfae_have 1 ↔ 3 := isBalanced_iff_wellNested
      tfae_have 2 ↔ 3 := jumpTable_ok_iff
      tfae_finish
    · intro mismatch hmismatch
      by_cases h : WellNested instrs
      · obtain ⟨program, hok, -⟩ := hprogram instrs h
        simp [hok] at hmismatch
      · simp [Program.ofInstrs_of_not_wellNested h] at hmismatch
  · intro text
    refine ⟨read text, toList_spell_read text, ?_, ?_⟩
    · refine ⟨?_, Program.ofInstrs_of_not_wellNested⟩
      intro herror hnested
      obtain ⟨program, hok, -⟩ := hprogram _ hnested
      simp [Program.parse, hok] at herror
    · refine ⟨?_, hprogram _⟩
      rintro ⟨program, -, hinstrs⟩
      rw [← hinstrs, ← isBalanced_iff_wellNested]
      exact program.isBalanced_instrs

end ProgramArt.Tape
