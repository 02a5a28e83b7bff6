import ProgramArt.Host.Standard
import ProgramArt.Proofs.Beat.Tree
import ProgramArt.Proofs.Outcome

/-!
# Heights of the stack

Each command takes a number of values from the stack and leaves a number of them there. Counting these, without the
values (`countAfter?`), says where a run of commands first finds too little and how many values it leaves in the end.
The check of a formula follows a single number, the net effect of each command. It refuses exactly the lists that find
too little, unless an array of no values is among them: such an array takes nothing, but is checked as if it took its
index.

## Contents

* `execute_cases`, `executeAll_cases` — runs on stacks have the heights that are counted;
* `Cmd.FindsMember` — arrays that find their member among too few values;
* `FirstShort`, `UnderflowsAt` — the first command that finds too little, and where a run fails;
* `compile_refuses_shortage` — **the check refuses exactly the lists that find too little**;
* `eval_empties_scratch_iff` — **a formula leaves one value exactly if it is a single tree**.
-/

namespace ProgramArt.Beat

/-! ## Runs on heights -/

/-- How many values a command leaves in the place of those that it takes. -/
def Cmd.leaves : Cmd → Nat
  | remark _ _ | comment _ => 0
  | _ => 1

/-- The height of a stack of `count` values after `cmds`, or `none` as soon as one of them finds fewer values than it
takes. -/
def countAfter? : (count : Nat) → (cmds : List Cmd) → Option Nat
  | count, [] => some count
  | count, cmd :: rest =>
    if count < cmd.takes then none else countAfter? (count - cmd.takes + cmd.leaves) rest

theorem countAfter?_cons_of_le {cmd : Cmd} {start : Nat} (h : cmd.takes ≤ start) (rest : List Cmd) :
    countAfter? start (cmd :: rest) = countAfter? (start - cmd.takes + cmd.leaves) rest := by
  rw [countAfter?, if_neg (Nat.not_lt.mpr h)]

theorem Value.failsOnly_toFloat (v : Value) : FailsOnly (· = .tooLarge) v.toFloat := by
  cases v with
  | int n =>
      rw [toFloat]
      split
      · exact failsOnly_ok _
      · exact failsOnly_error rfl
  | float x => exact failsOnly_ok x

theorem Value.failsOnly_compared {integers : Int → Int → Bool} {doubles : Float → Float → Bool} (v w : Value) :
    FailsOnly (· = .tooLarge) (compared integers doubles v w) := by
  match v, w with
  | int m, int n => exact failsOnly_ok _
  | int _, float _ | float _, int _ | float _, float _ =>
      exact (failsOnly_toFloat _).bind fun _ => (failsOnly_toFloat _).bind fun _ => failsOnly_ok _

theorem Value.failsOnly_equal (v w : Value) : FailsOnly (· = .tooLarge) (v.equal w) := by
  match v, w with
  | int m, int n | float x, float y => exact failsOnly_ok _
  | int m, float y => exact (failsOnly_toFloat (int m)).bind fun _ => failsOnly_ok _
  | float x, int n => exact (failsOnly_toFloat (int n)).bind fun _ => failsOnly_ok _

theorem CompareOp.failsOnly_apply (op : CompareOp) (v w : Value) : FailsOnly (· = .tooLarge) (op.apply v w) := by
  cases op with
  | lt | gt =>
      rw [apply, Value.less_eq_compared]
      exact Value.failsOnly_compared _ _
  | le | ge =>
      rw [apply, Value.atMost_eq_compared]
      exact Value.failsOnly_compared _ _
  | eq => exact v.failsOnly_equal w
  | ne => exact (v.failsOnly_equal w).bind fun _ => failsOnly_ok _

/-- A command that finds what it takes puts one value in its place, or meets a number that is too large. -/
theorem execute_of_outcome [Host] {sample : Sample} {cmd : Cmd} {stack : Stack} {outcome : Except EvalError Value}
    (rest : Stack)
    (hexecute : execute sample cmd stack = do return (← outcome) :: rest) (houtcome : FailsOnly (· = .tooLarge) outcome)
    (hlength : stack.length = cmd.takes + rest.length) (hleaves : cmd.leaves = 1) :
    execute sample cmd stack = .error .tooLarge ∨
      ∃ after, execute sample cmd stack = .ok after ∧ after.length = stack.length - cmd.takes + cmd.leaves := by
  cases outcome with
  | error e =>
      left
      rw [hexecute, houtcome e rfl]
      rfl
  | ok value =>
      refine .inr ⟨value :: rest, hexecute, ?_⟩
      rw [List.length_cons, hlength, hleaves]
      omega

/-- An array whose index chooses a value that is there, however many others are missing. -/
def Cmd.FindsMember (cmd : Cmd) (stack : Stack) : Prop :=
  ∃ others index rest, cmd = .array (others + 1) ∧ stack = index :: rest ∧
    (index.toInt % ((others + 1 : Nat) : Int)).toNat < rest.length

/-- **An array that finds too few values** takes all of them. It fails unless the one that its index chooses is
there. -/
theorem execute_array_of_short [Host] (sample : Sample) {others : Nat} {index : Value} {rest : Stack}
    (hshort : rest.length < others + 1) :
    execute sample (.array (others + 1)) (index :: rest) = .error .underflow ∧
      ¬ (Cmd.array (others + 1)).FindsMember (index :: rest) ∨
    (∃ value, execute sample (.array (others + 1)) (index :: rest) = .ok [value]) ∧
      (Cmd.array (others + 1)).FindsMember (index :: rest) := by
  have hall : rest.take (others + 1) = rest := List.take_of_length_le (Nat.le_of_lt hshort)
  rw [execute_array, chosen?, popCount_natCast, hall, List.drop_of_length_le (Nat.le_of_lt hshort)]
  dsimp only
  by_cases hmember : (index.toInt % ((others + 1 : Nat) : Int)).toNat < rest.length
  · rw [List.getElem?_eq_getElem (by rwa [List.length_reverse])]
    exact .inr ⟨⟨_, rfl⟩, others, index, rest, rfl, rfl, hmember⟩
  · rw [List.getElem?_eq_none (by rw [List.length_reverse]; omega)]
    refine .inl ⟨rfl, ?_⟩
    rintro ⟨_, _, _, hcmd, hstack, hplace⟩
    cases hcmd
    cases hstack
    exact hmember hplace

/-- **One command on any stack.** A stack that is lower than what it takes is too little, unless it is that of an
array which finds its member. Otherwise it changes the height by what it takes and leaves, unless a number is too
large for a double. -/
theorem execute_cases [Host] (sample : Sample) (cmd : Cmd) (stack : Stack) :
    stack.length < cmd.takes ∧
      (execute sample cmd stack = .error .underflow ∧ ¬ cmd.FindsMember stack ∨
        (∃ value, execute sample cmd stack = .ok [value]) ∧ cmd.FindsMember stack) ∨
    cmd.takes ≤ stack.length ∧
      (execute sample cmd stack = .error .tooLarge ∨
        ∃ after, execute sample cmd stack = .ok after ∧
          after.length = stack.length - cmd.takes + cmd.leaves) := by
  cases cmd with
  | var _ | float _ | int _ | hex _ => exact .inr ⟨Nat.zero_le _, .inr ⟨_, rfl, rfl⟩⟩
  | remark _ _ | comment _ => exact .inr ⟨Nat.zero_le _, .inr ⟨_, rfl, rfl⟩⟩
  | intOp op =>
      rcases stack with _ | ⟨b, _ | ⟨a, rest⟩⟩
      · exact .inl ⟨by simp [Cmd.takes], .inl ⟨rfl, by simp [Cmd.FindsMember]⟩⟩
      · exact .inl ⟨by simp [Cmd.takes], .inl ⟨rfl, by simp [Cmd.FindsMember]⟩⟩
      · exact .inr ⟨by simp [Cmd.takes], .inr ⟨_, rfl, rfl⟩⟩
  | trig op =>
      rcases stack with _ | ⟨a, rest⟩
      · exact .inl ⟨by simp [Cmd.takes], .inl ⟨rfl, by simp [Cmd.FindsMember]⟩⟩
      · refine .inr ⟨by simp [Cmd.takes], ?_⟩
        have houtcome := a.failsOnly_toFloat.bind fun x => failsOnly_ok (Value.float (op.apply x))
        refine execute_of_outcome rest ?_ houtcome (by simp [Cmd.takes]; omega) rfl
        rw [execute]
        cases a.toFloat <;> rfl
  | floatOp op =>
      rcases stack with _ | ⟨b, _ | ⟨a, rest⟩⟩
      · exact .inl ⟨by simp [Cmd.takes], .inl ⟨rfl, by simp [Cmd.FindsMember]⟩⟩
      · exact .inl ⟨by simp [Cmd.takes], .inl ⟨rfl, by simp [Cmd.FindsMember]⟩⟩
      · refine .inr ⟨by simp [Cmd.takes], ?_⟩
        have houtcome := a.failsOnly_toFloat.bind fun x =>
          b.failsOnly_toFloat.bind fun y => failsOnly_ok (Value.float (op.apply x y))
        refine execute_of_outcome rest ?_ houtcome (by simp [Cmd.takes]; omega) rfl
        rw [execute]
        cases a.toFloat with
        | error e => rfl
        | ok x => cases b.toFloat <;> rfl
  | compare op =>
      rcases stack with _ | ⟨b, _ | ⟨a, rest⟩⟩
      · exact .inl ⟨by simp [Cmd.takes], .inl ⟨rfl, by simp [Cmd.FindsMember]⟩⟩
      · exact .inl ⟨by simp [Cmd.takes], .inl ⟨rfl, by simp [Cmd.FindsMember]⟩⟩
      · refine .inr ⟨by simp [Cmd.takes], ?_⟩
        have houtcome := (op.failsOnly_apply a b).bind fun holds =>
          failsOnly_ok (Value.int (if holds then 1 else 0))
        refine execute_of_outcome rest ?_ houtcome (by simp [Cmd.takes]; omega) rfl
        rw [execute]
        cases op.apply a b <;> rfl
  | choose =>
      rcases stack with _ | ⟨c, _ | ⟨b, _ | ⟨a, rest⟩⟩⟩
      · exact .inl ⟨by simp [Cmd.takes], .inl ⟨rfl, by simp [Cmd.FindsMember]⟩⟩
      · exact .inl ⟨by simp [Cmd.takes], .inl ⟨rfl, by simp [Cmd.FindsMember]⟩⟩
      · exact .inl ⟨by simp [Cmd.takes], .inl ⟨rfl, by simp [Cmd.FindsMember]⟩⟩
      · exact .inr ⟨by simp [Cmd.takes], .inr ⟨_, rfl, rfl⟩⟩
  | array size =>
      cases size with
      -- An array of no values has no index to take.
      | zero => exact .inr ⟨Nat.zero_le _, .inr ⟨_, rfl, rfl⟩⟩
      | succ others =>
          rcases stack with _ | ⟨index, rest⟩
          · exact .inl ⟨by simp [Cmd.takes], .inl ⟨rfl, by simp [Cmd.FindsMember]⟩⟩
          by_cases hshort : rest.length < others + 1
          · exact .inl ⟨by simp [Cmd.takes]; omega, execute_array_of_short sample hshort⟩
          · right
            obtain ⟨value, -, hvalue⟩ :=
              exists_chosen? (Nat.succ_pos others) (show others + 1 ≤ rest.length by omega) index.toInt
            refine ⟨by simp [Cmd.takes]; omega, .inr ⟨value :: rest.drop (others + 1), ?_, ?_⟩⟩
            · rw [execute_array, hvalue]
            · simp [Cmd.takes, Cmd.leaves]

/-- **Commands on any stack.** If they find what they take, the height is the one that is counted, unless a number is
too large for a double. -/
theorem executeAll_cases [Host] (sample : Sample) {cmds : List Cmd} (stack : Stack) {count : Nat}
    (h : countAfter? stack.length cmds = some count) :
    executeAll sample cmds stack = .error .tooLarge ∨
    ∃ after, after.length = count ∧ executeAll sample cmds stack = .ok after := by
  induction cmds generalizing stack with
  | nil => exact .inr ⟨stack, Option.some.inj h, rfl⟩
  | cons cmd rest ih =>
      rw [countAfter?] at h
      split at h
      · cases h
      · rename_i henough
        rw [executeAll]
        obtain ⟨hshort, -⟩ | ⟨-, hexecute | ⟨after, hexecute, hlength⟩⟩ := execute_cases sample cmd stack
        · exact absurd hshort henough
        · rw [hexecute]
          exact .inl rfl
        · rw [hexecute]
          exact ih after (hlength ▸ h)

/-! ## The first command that finds too little -/

/-- The effect of a command that is no remark is what it leaves less what it takes, but for an array of no values. -/
theorem effect_eq {cmd : Cmd} (hremark : cmd.isRemark = false) (hzero : cmd ≠ .array 0) :
    cmd.effect = some (1 - (cmd.takes : Int)) := by
  cases cmd with
  | remark _ _ | comment _ => cases hremark
  | array size =>
      cases size with
      | zero => exact absurd rfl hzero
      | succ others =>
          simp only [Cmd.effect, Cmd.takes, Option.some.injEq]
          omega
  | _ => rfl

theorem leaves_of_isRemark {cmd : Cmd} (hremark : cmd.isRemark = true) :
    cmd.effect = none ∧ cmd.takes = 0 ∧ cmd.leaves = 0 := by
  cases cmd with
  | remark _ _ | comment _ => exact ⟨rfl, rfl, rfl⟩
  | _ => cases hremark

theorem leaves_of_not_isRemark {cmd : Cmd} (hremark : cmd.isRemark = false) : cmd.leaves = 1 := by
  cases cmd with
  | remark _ _ | comment _ => cases hremark
  | _ => rfl

/-- A command that passes the check on a stack that is no lower than was checked finds what it takes, and an array of no
values leaves one value more than was checked. -/
theorem takes_le_of_effect {cmd : Cmd} {height : Int} {start : Nat} (hroom : height ≤ start)
    (hleaves : ∀ change, cmd.effect = some change → 0 < height + change) :
    cmd.takes ≤ start ∧
      ((start - cmd.takes + cmd.leaves : Nat) : Int) = start + cmd.effect.getD 0 + [cmd].count (.array 0) := by
  cases hremark : cmd.isRemark with
  | true =>
      obtain ⟨heffect, htakes, hnone⟩ := leaves_of_isRemark hremark
      rw [count_eq_zero (by rintro rfl; cases hremark), heffect, htakes, hnone]
      simp
  | false =>
      by_cases hzero : cmd = .array 0
      · subst hzero
        simp [Cmd.takes, Cmd.leaves, Cmd.effect]
      · have heffect := effect_eq hremark hzero
        have hpos := hleaves _ heffect
        rw [count_eq_zero hzero, heffect, leaves_of_not_isRemark hremark, Option.getD_some]
        omega

/-- What passes the check runs through on heights, and each array of no values leaves one value more than was
checked. -/
theorem countAfter?_of_heightFrom {cmds : List Cmd} {index start : Nat} {height final : Int}
    (h : heightFrom index height cmds = .ok final) (hroom : height ≤ start) :
    ∃ after, countAfter? start cmds = some after ∧
      (after : Int) = start + (final - height) + cmds.count (.array 0) := by
  induction cmds generalizing index start height with
  | nil =>
      cases h
      exact ⟨start, rfl, by simp⟩
  | cons cmd rest ih =>
      obtain ⟨hleaves, hrest⟩ := heightFrom_cons_eq_ok h
      obtain ⟨henough, hnext⟩ := takes_le_of_effect hroom hleaves
      have hnextRoom : height + cmd.effect.getD 0 ≤ ((start - cmd.takes + cmd.leaves : Nat) : Int) := by omega
      obtain ⟨after, hafter, hfinal⟩ := ih hrest hnextRoom
      refine ⟨after, ?_, ?_⟩
      · rw [countAfter?_cons_of_le henough]
        exact hafter
      · have hcount : (cmd :: rest).count (.array 0) = [cmd].count (.array 0) + rest.count (.array 0) := by
          rw [← List.count_append, List.singleton_append]
        omega

/-- **No command of a formula finds too little.** It leaves what was checked, and one value more for each array of no
values. -/
theorem Program.exists_countAfter? (program : Program) :
    ∃ after, countAfter? 0 program.cmds = some after ∧
      (after : Int) = program.height + program.cmds.count (.array 0) := by
  obtain ⟨after, hafter, hheight⟩ := countAfter?_of_heightFrom program.height_eq (Int.le_refl 0)
  rw [Int.natCast_zero] at hheight
  exact ⟨after, hafter, by omega⟩

theorem heightFrom_of_isRemark {cmds : List Cmd} (h : ∀ cmd ∈ cmds, cmd.isRemark = true) (index : Nat) (height : Int) :
    heightFrom index height cmds = .ok height := by
  induction cmds generalizing index with
  | nil => rfl
  | cons cmd rest ih =>
      obtain ⟨hcmd, hrest⟩ := List.forall_mem_cons.mp h
      rw [heightFrom, (leaves_of_isRemark hcmd).1]
      exact ih hrest (index + 1)

/-- A command that is no remark and passes the check leaves something, and so do the commands behind it. -/
theorem heightFrom_pos {cmds : List Cmd} {index : Nat} {height final : Int}
    (h : heightFrom index height cmds = .ok final)
    (hstart : 0 < height ∨ ∃ cmd ∈ cmds, cmd.isRemark = false) : 0 < final := by
  induction cmds generalizing index height with
  | nil =>
      cases h
      simpa using hstart
  | cons cmd rest ih =>
      obtain ⟨hleaves, hrest⟩ := heightFrom_cons_eq_ok h
      apply ih hrest
      cases heffect : cmd.effect with
      | some change => exact .inl (hleaves change heffect)
      | none =>
          rw [Option.getD_none, Int.add_zero]
          have hremark : cmd.isRemark = true := by
            rw [isRemark_eq_isNone, heffect]
            rfl
          simpa [hremark] using hstart

/-- **How a list of commands is checked.** -/
theorem Program.compile_cases (cmds : List Cmd) :
    (∃ shortage, heightFrom 0 0 cmds = .error shortage ∧ compile cmds = .error (.underflow cmds shortage)) ∨
    heightFrom 0 0 cmds = .ok 0 ∧ compile cmds = .error (.empty cmds) ∨
    ∃ program, heightFrom 0 0 cmds = .ok program.height ∧ compile cmds = .ok program := by
  cases hheight : heightFrom 0 0 cmds with
  | error shortage =>
      refine .inl ⟨shortage, rfl, ?_⟩
      unfold compile
      split
      · rename_i found hfound
        rw [hheight] at hfound
        cases hfound
        rfl
      · rename_i found hfound
        rw [hheight] at hfound
        cases hfound
  | ok height =>
      by_cases hzero : height = 0
      · subst hzero
        refine .inr (.inl ⟨rfl, ?_⟩)
        unfold compile
        split
        · rename_i found hfound
          rw [hheight] at hfound
          cases hfound
        · rename_i found hfound
          rw [hheight] at hfound
          cases hfound
          rfl
      · obtain ⟨program, hprogram⟩ := exists_compile hheight hzero
        obtain rfl := compile_eq_ok hprogram
        exact .inr (.inr ⟨program, hheight.symm.trans program.height_eq, hprogram⟩)

/-- **Only remarks are an empty formula.** -/
theorem Program.compile_eq_empty_iff {cmds : List Cmd} :
    compile cmds = .error (.empty cmds) ↔ ∀ cmd ∈ cmds, cmd.isRemark = true := by
  constructor
  · intro h
    obtain ⟨shortage, -, hcompile⟩ | ⟨hzero, -⟩ | ⟨program, -, hcompile⟩ := compile_cases cmds
    · rw [hcompile] at h
      cases h
    · intro cmd hmem
      by_contra hremark
      have hpos := heightFrom_pos hzero (.inr ⟨cmd, hmem, Bool.eq_false_iff.mpr hremark⟩)
      omega
    · rw [hcompile] at h
      cases h
  · intro hremarks
    have hzero := heightFrom_of_isRemark hremarks 0 0
    obtain ⟨shortage, herror, -⟩ | ⟨-, hcompile⟩ | ⟨program, hok, -⟩ := compile_cases cmds
    · rw [hzero] at herror
      cases herror
    · exact hcompile
    · rw [hzero, Except.ok.injEq] at hok
      exact absurd hok.symm program.height_ne

theorem Program.compile_eq_underflow_iff {cmds : List Cmd} {shortage : Shortage} :
    compile cmds = .error (.underflow cmds shortage) ↔ heightFrom 0 0 cmds = .error shortage := by
  obtain ⟨found, herror, hcompile⟩ | ⟨hok, hcompile⟩ | ⟨program, hok, hcompile⟩ := compile_cases cmds
  · simp [herror, hcompile]
  · simp [hok, hcompile]
  · simp [hok, hcompile]

theorem countAfter?_withoutRemarks (start : Nat) (cmds : List Cmd) :
    countAfter? start (withoutRemarks cmds) = countAfter? start cmds := by
  induction cmds generalizing start with
  | nil => rfl
  | cons cmd rest ih =>
      cases hremark : cmd.isRemark with
      | true =>
          obtain ⟨-, htakes, hleaves⟩ := leaves_of_isRemark hremark
          rw [withoutRemarks, List.filter_cons_of_neg (by simp [hremark]),
            countAfter?_cons_of_le (by rw [htakes]; exact Nat.zero_le start), htakes, hleaves]
          exact ih start
      | false =>
          rw [withoutRemarks, List.filter_cons_of_pos (by simp [hremark]), countAfter?, countAfter?]
          split
          · rfl
          · exact ih _

/-- The commands of trees raise the height by their number, if those of each tree raise it by one. -/
theorem countAfter?_flats {trees : List Tree}
    (h : ∀ tree ∈ trees, ∀ start rest, countAfter? start (tree.flat ++ rest) = countAfter? (start + 1) rest)
    (start : Nat) (rest : List Cmd) :
    countAfter? start (flats trees ++ rest) = countAfter? (start + trees.length) rest := by
  induction trees generalizing start with
  | nil => rfl
  | cons tree others ih =>
      obtain ⟨htree, hothers⟩ := List.forall_mem_cons.mp h
      rw [flats, List.append_assoc, htree, ih hothers, List.length_cons, Nat.add_assoc, Nat.add_comm 1]

/-- **The commands of a tree raise the height by one**, whatever stands in it. -/
theorem countAfter?_flat (tree : Tree) (start : Nat) (rest : List Cmd) :
    countAfter? start (tree.flat ++ rest) = countAfter? (start + 1) rest := by
  induction tree generalizing start rest with
  | leaf leaf => cases leaf <;> rfl
  | trig op angle ih =>
      rw [Tree.flat, List.append_assoc, ih]
      rfl
  | binary op left right ihLeft ihRight =>
      rw [Tree.flat, List.append_assoc, List.append_assoc, ihLeft, ihRight]
      cases op <;> rfl
  | choose thenTree otherwise condition ihThen ihOtherwise ihCondition =>
      rw [Tree.flat, List.append_assoc, List.append_assoc, List.append_assoc, ihThen, ihOtherwise, ihCondition]
      rfl
  | array first others index ihFirst ihOthers ihIndex =>
      rw [Tree.flat, List.append_assoc, List.append_assoc, List.append_assoc, ihFirst, countAfter?_flats ihOthers,
        ihIndex, List.singleton_append, countAfter?_cons_of_le (by simp only [Cmd.takes]; omega)]
      congr 1
      simp only [Cmd.takes, Cmd.leaves]
      omega

theorem countAfter?_forest (trees : List Tree) : countAfter? 0 (trees.flatMap Tree.flat) = some trees.length := by
  rw [← List.append_nil (trees.flatMap Tree.flat), ← flats_eq_flatMap,
    countAfter?_flats (fun tree _ => countAfter?_flat tree), Nat.zero_add]
  rfl

/-- A formula has as many trees as were checked, and one more for each array of no values. -/
theorem Program.length_trees (program : Program) {trees : List Tree}
    (hflat : trees.flatMap Tree.flat = withoutRemarks program.cmds) :
    (trees.length : Int) = program.height + program.cmds.count (.array 0) := by
  obtain ⟨after, hafter, hheight⟩ := program.exists_countAfter?
  rw [← countAfter?_withoutRemarks, ← hflat, countAfter?_forest, Option.some.injEq] at hafter
  omega

/-- A formula is a single tree exactly if the checked height is one and no array in it is empty. -/
theorem Program.exists_tree_iff (program : Program) :
    (∃ tree : Tree, tree.flat = withoutRemarks program.cmds) ↔
      program.height = 1 ∧ .array 0 ∉ program.cmds := by
  have hpos := program.height_pos
  rw [← List.count_eq_zero]
  constructor
  · rintro ⟨tree, htree⟩
    have hflat : [tree].flatMap Tree.flat = withoutRemarks program.cmds := by simpa using htree
    have hlength := program.length_trees hflat
    rw [List.length_singleton] at hlength
    omega
  · rintro ⟨hheight, hcount⟩
    obtain ⟨trees, -, hflat⟩ := program.exists_trees
    have hlength := program.length_trees hflat
    obtain ⟨tree, rfl⟩ := List.length_eq_one_iff.mp (show trees.length = 1 by omega)
    exact ⟨tree, by simpa using hflat⟩

/-- **What a formula leaves.** On numbers and truth values a formula has a value, unless a number is too large for a
double, for which a literal has to be out of the range of words. The last stack of its trace then holds the value and
below it one value less than was checked, and one more for each array of no values; these stay in the scratch stack.
So the scratch stack is empty in the end exactly if the checked height is one and no array is empty, which means that
the commands are those of a single tree. -/
theorem eval_empties_scratch_iff [Host] {cmds : List Cmd} {program : Program}
    (hcompile : Program.compile cmds = .ok program) {raw : RawSample} (hraw : raw.Numeric) (scratch : Stack) :
    (∃ value left entries, eval scratch program raw = (.ok value, left) ∧
      trace program raw = .ok entries ∧ (entries.map Prod.snd).getLast? = some (value :: left) ∧
      (left.length : Int) = program.height - 1 + cmds.count (.array 0) ∧
      (left = [] ↔ program.height = 1 ∧ .array 0 ∉ cmds) ∧
      (left = [] ↔ ∃ tree : Tree, tree.flat = withoutRemarks cmds)) ∨
    ((eval scratch program raw).1 = .error .tooLarge ∧ ∃ cmd ∈ cmds, ¬ cmd.FitsWord) := by
  obtain rfl := Program.compile_eq_ok hcompile
  obtain ⟨sample, hsample, hfits⟩ := Sample.exists_ofData hraw
  obtain ⟨after, hafter, hheight⟩ := program.exists_countAfter?
  have hpos := program.height_pos
  obtain hlarge | ⟨last, hlast, hrun⟩ := executeAll_cases sample [] hafter
  · right
    refine ⟨by simp [eval, evalSample, hsample, hlarge, bind, Except.bind], ?_⟩
    -- no word is too large for a double
    by_contra hwords
    push Not at hwords
    obtain ⟨last, hlast, -⟩ := executeAll_fits hfits hwords program.height_eq allFit_nil (Int.le_refl 0)
    rw [hlarge] at hlast
    cases hlast
  · left
    obtain ⟨value, left, rfl⟩ := List.exists_cons_of_length_pos (show 0 < last.length by omega)
    rw [List.length_cons] at hlast
    obtain ⟨entries, hentries, hend⟩ := getLast?_traceFrom program.cmds_ne_nil hrun
    have hsingle : left = [] ↔ program.height = 1 ∧ .array 0 ∉ program.cmds := by
      rw [← List.length_eq_zero_iff, ← List.count_eq_zero]
      omega
    refine ⟨value, left, entries, eval_of_executeAll hsample hrun scratch,
      (trace_of_traceFrom hsample).trans hentries, hend,
      by omega, hsingle, ?_⟩
    rw [hsingle, program.exists_tree_iff]

/-- A single tree: `t 2 %`. -/
def lowestBit : List Cmd :=
  [.var .frame, .int 2, .intOp .mod]

open scoped Host in
theorem eval_empties_scratch_iff_lowestBit :
    ∃ program, Program.compile lowestBit = .ok program ∧ mixed.Numeric ∧
      (∃ tree : Tree, tree.flat = withoutRemarks lowestBit) ∧
      ∃ value entries, eval [.int 7] program mixed = (.ok value, []) ∧
        trace program mixed = .ok entries ∧ (entries.map Prod.snd).getLast? = some [value] := by
  have hcompile : Program.compile lowestBit = .ok ⟨lowestBit, 1, rfl, by decide⟩ := rfl
  have hraw : mixed.Numeric := by decide
  have htree : ∃ tree : Tree, tree.flat = withoutRemarks lowestBit :=
    ⟨.binary (.int .mod) (.leaf (.var .frame)) (.leaf (.int 2)), rfl⟩
  have hcmds : ∀ cmd ∈ lowestBit, cmd.FitsWord := by decide
  obtain ⟨value, left, entries, heval, htrace, hlast, -, -, hempty⟩ | ⟨-, cmd, hmem, hlarge⟩ :=
    eval_empties_scratch_iff hcompile hraw [.int 7]
  · obtain rfl := hempty.mpr htree
    exact ⟨_, hcompile, hraw, htree, value, entries, heval, htrace, hlast⟩
  · exact absurd (hcmds cmd hmem) hlarge

open scoped Host in
/-- **More than one value can be left**: `1 2` leaves both, and `t [0` leaves two although the checked height is one. -/
theorem eval_leaves_more :
    (∃ program, Program.compile [.int 1, .int 2] = .ok program ∧
      eval [] program {} = (.ok (.int 2), [.int 1])) ∧
    ∃ program, Program.compile [.var .frame, .array 0] = .ok program ∧ program.height = 1 ∧
      eval [] program {} = (.ok (.int 0), [.int 0]) :=
  ⟨⟨⟨[.int 1, .int 2], 2, rfl, by decide⟩, rfl, rfl⟩, ⟨[.var .frame, .array 0], 1, rfl, by decide⟩, rfl, rfl, rfl⟩

end ProgramArt.Beat
