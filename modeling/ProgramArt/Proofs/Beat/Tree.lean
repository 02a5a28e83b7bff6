import ProgramArt.Host.Standard
import ProgramArt.Proofs.Beat.Safety

/-!
# Formulas as trees

A formula is a list of trees, written operands first (`Tree.flat`). The trees are determined by the commands: running
the commands on a stack of trees, in the way in which they run on a stack of values, rebuilds them
(`regrowAll_forest`). So what the stack machine computes is what the trees mean, one `Tree.value` for each tree.
-/

namespace ProgramArt.Beat

/-! ## Trees -/

/-- What a tree has at its ends. -/
inductive Leaf where
  | var (v : Variable)
  | float (x : Float)
  | int (n : Int)
  | hex (n : Int)
  /-- An array of no values. -/
  | zero
deriving DecidableEq

/-- An operator with two operands. -/
inductive BinaryOp where
  | int (op : IntOp)
  | float (op : FloatOp)
  | compare (op : CompareOp)
deriving DecidableEq

/-- A formula with a single value. -/
inductive Tree where
  | leaf (leaf : Leaf)
  | trig (op : TrigOp) (angle : Tree)
  /-- The left operand is pushed first. -/
  | binary (op : BinaryOp) (left right : Tree)
  | choose (thenTree otherwise condition : Tree)
  /-- An array of one value or more. -/
  | array (first : Tree) (others : List Tree) (index : Tree)

/-- The command of a leaf. -/
def Leaf.cmd : Leaf → Cmd
  | var v => .var v
  | float x => .float x
  | int n => .int n
  | hex n => .hex n
  | zero => .array 0

/-- The value of a leaf. -/
def Leaf.value (sample : Sample) : Leaf → Value
  | var v => sample.get v
  | float x => .float x
  | int n | hex n => .int n
  | zero => .int 0

/-- The command of an operator. -/
def BinaryOp.cmd : BinaryOp → Cmd
  | int op => .intOp op
  | float op => .floatOp op
  | compare op => .compare op

/-- The value of an operator on the values of its operands. -/
def BinaryOp.apply [Host] : BinaryOp → Value → Value → Except EvalError Value
  | int op, a, b => .ok (.int (op.apply a.toInt b.toInt))
  | float op, a, b => do return .float (op.apply (← a.toFloat) (← b.toFloat))
  | compare op, a, b => do return .int (if ← op.apply a b then 1 else 0)

theorem pick_lt (first : Value) (others : List Value) (index : Int) :
    (index % ((first :: others).length : Int)).toNat < (first :: others).length := by
  have hpos : 0 < ((first :: others).length : Int) := Int.ofNat_lt.mpr (Nat.succ_pos _)
  have hnonneg := Int.emod_nonneg index (Int.ne_of_gt hpos)
  have hlt := Int.emod_lt_of_pos index hpos
  omega

/-- The value at an index, which is taken modulo the number of values. -/
def pick (first : Value) (others : List Value) (index : Int) : Value :=
  (first :: others).get ⟨(index % ((first :: others).length : Int)).toNat, pick_lt first others index⟩

mutual

/-- The commands of a tree, operands first. -/
def Tree.flat : Tree → List Cmd
  | .leaf leaf => [leaf.cmd]
  | .trig op angle => angle.flat ++ [.trig op]
  | .binary op left right => left.flat ++ right.flat ++ [op.cmd]
  | .choose thenTree otherwise condition =>
    thenTree.flat ++ otherwise.flat ++ condition.flat ++ [.choose]
  | .array first others index =>
    first.flat ++ flats others ++ index.flat ++ [.array (others.length + 1)]

/-- The commands of trees, one after the other. -/
def flats : List Tree → List Cmd
  | [] => []
  | tree :: rest => tree.flat ++ flats rest

end

mutual

/-- The value of a tree. All operands are evaluated, in order, also those that are not chosen. -/
def Tree.value [Host] (sample : Sample) : Tree → Except EvalError Value
  | .leaf leaf => .ok (leaf.value sample)
  | .trig op angle => do return .float (op.apply (← (← angle.value sample).toFloat))
  | .binary op left right => do
    let a ← left.value sample
    let b ← right.value sample
    op.apply a b
  | .choose thenTree otherwise condition => do
    let a ← thenTree.value sample
    let b ← otherwise.value sample
    let c ← condition.value sample
    return if c.isTrue then a else b
  | .array first others index => do
    let a ← first.value sample
    let rest ← values sample others
    let i ← index.value sample
    return pick a rest i.toInt

/-- The values of trees. -/
def values [Host] (sample : Sample) : List Tree → Except EvalError (List Value)
  | [] => .ok []
  | tree :: rest => do
    let value ← tree.value sample
    let others ← values sample rest
    return value :: others

end

theorem flats_eq_flatMap (trees : List Tree) : flats trees = trees.flatMap Tree.flat := by
  induction trees with
  | nil => rfl
  | cons tree rest ih => rw [flats, List.flatMap_cons, ih]

theorem values_eq_mapM [Host] (sample : Sample) (trees : List Tree) :
    values sample trees = trees.mapM (Tree.value sample) := by
  induction trees with
  | nil => rfl
  | cons tree rest ih => rw [values, List.mapM_cons, ih]

/-- Induction over trees, which for the values of an array gives the hypothesis for each of them. -/
@[induction_eliminator]
theorem Tree.induction {motive : Tree → Prop} (leaf : ∀ leaf, motive (.leaf leaf))
    (trig : ∀ op angle, motive angle → motive (.trig op angle))
    (binary : ∀ op left right, motive left → motive right → motive (.binary op left right))
    (choose : ∀ thenTree otherwise condition, motive thenTree → motive otherwise → motive condition →
      motive (.choose thenTree otherwise condition))
    (array : ∀ first others index, motive first → (∀ tree ∈ others, motive tree) → motive index →
      motive (.array first others index))
    (tree : Tree) : motive tree :=
  @Tree.rec motive (fun trees => ∀ tree ∈ trees, motive tree) leaf trig binary choose array
    (by simp) (fun _ _ htree hrest => List.forall_mem_cons.mpr ⟨htree, hrest⟩) tree

/-! ## The stack machine on the commands of trees

The lemmas speak of the commands that follow, so that a node is run by running its operands in turn. -/

theorem executeAll_leaf [Host] (sample : Sample) (leaf : Leaf) (rest : List Cmd) (stack : Stack) :
    executeAll sample (leaf.cmd :: rest) stack = executeAll sample rest (leaf.value sample :: stack) := by
  cases leaf <;> rfl

theorem executeAll_trig [Host] (sample : Sample) (op : TrigOp) (a : Value) (rest : List Cmd) (stack : Stack) :
    executeAll sample (.trig op :: rest) (a :: stack) = (do
      let x ← a.toFloat
      executeAll sample rest (.float (op.apply x) :: stack)) := by
  rw [executeAll, execute]
  cases a.toFloat <;> rfl

theorem executeAll_binary [Host] (sample : Sample) (op : BinaryOp) (a b : Value) (rest : List Cmd) (stack : Stack) :
    executeAll sample (op.cmd :: rest) (b :: a :: stack) = (do
      let value ← op.apply a b
      executeAll sample rest (value :: stack)) := by
  cases op with
  | int op => rfl
  | float op =>
      rw [BinaryOp.cmd, executeAll, execute, BinaryOp.apply]
      cases a.toFloat with
      | error e => rfl
      | ok x => cases b.toFloat <;> rfl
  | compare op =>
      rw [BinaryOp.cmd, executeAll, execute, BinaryOp.apply]
      cases op.apply a b <;> rfl

theorem executeAll_choose [Host] (sample : Sample) (a b c : Value) (rest : List Cmd) (stack : Stack) :
    executeAll sample (.choose :: rest) (c :: b :: a :: stack) =
      executeAll sample rest ((if c.isTrue then a else b) :: stack) := rfl

/-- The values of an array lie below its index, the first of them deepest. -/
theorem chosen?_reverse (first : Value) (others : List Value) (index : Int) (stack : Stack) :
    chosen? (others.length + 1) index ((first :: others).reverse ++ stack) =
      some (pick first others index) := by
  have hlength : (first :: others).reverse.length = others.length + 1 := by simp
  rw [chosen?, popCount_natCast, List.take_left' hlength, List.reverse_reverse, pick, List.get_eq_getElem]
  exact List.getElem?_eq_getElem _

theorem executeAll_array [Host] (sample : Sample) (first : Value) (others : List Value) (index : Value)
    (rest : List Cmd) (stack : Stack) :
    executeAll sample (.array (others.length + 1) :: rest) (index :: (others.reverse ++ first :: stack)) =
      executeAll sample rest (pick first others index.toInt :: stack) := by
  have hstack : others.reverse ++ first :: stack = (first :: others).reverse ++ stack := by simp
  have hdrop : ((first :: others).reverse ++ stack).drop (others.length + 1) = stack :=
    List.drop_left' (by simp)
  rw [hstack, executeAll, execute_array, chosen?_reverse, hdrop]
  rfl

theorem length_of_values [Host] {sample : Sample} {trees : List Tree} {found : List Value}
    (h : values sample trees = .ok found) : found.length = trees.length := by
  induction trees generalizing found with
  | nil =>
      cases h
      rfl
  | cons tree rest ih =>
      rw [values] at h
      cases hvalue : tree.value sample with
      | error e =>
          rw [hvalue] at h
          cases h
      | ok value =>
          cases hothers : values sample rest with
          | error e =>
              rw [hvalue, hothers] at h
              cases h
          | ok others =>
              rw [hvalue, hothers] at h
              cases h
              rw [List.length_cons, List.length_cons, ih hothers]

/-- The commands of trees push their values in order, if those of each tree push its value. -/
theorem executeAll_flats [Host] {sample : Sample} {trees : List Tree}
    (h : ∀ tree ∈ trees, ∀ rest stack, executeAll sample (tree.flat ++ rest) stack = (do
      let value ← tree.value sample
      executeAll sample rest (value :: stack)))
    (rest : List Cmd) (stack : Stack) :
    executeAll sample (flats trees ++ rest) stack = (do
      let found ← values sample trees
      executeAll sample rest (found.reverse ++ stack)) := by
  induction trees generalizing stack with
  | nil => rfl
  | cons tree others ih =>
      obtain ⟨htree, hothers⟩ := List.forall_mem_cons.mp h
      rw [flats, List.append_assoc, htree, values]
      simp only [ih hothers, bind_assoc, pure_bind, List.reverse_cons, List.append_assoc,
        List.singleton_append]

/-- **The commands of a tree push its value**, or fail as its value does. -/
theorem executeAll_flat [Host] (sample : Sample) (tree : Tree) (rest : List Cmd) (stack : Stack) :
    executeAll sample (tree.flat ++ rest) stack = (do
      let value ← tree.value sample
      executeAll sample rest (value :: stack)) := by
  induction tree generalizing rest stack with
  | leaf leaf => exact executeAll_leaf sample leaf rest stack
  | trig op angle ih =>
      simp only [Tree.flat, Tree.value, List.append_assoc, List.singleton_append, ih, executeAll_trig,
        bind_assoc, pure_bind]
  | binary op left right ihLeft ihRight =>
      simp only [Tree.flat, Tree.value, List.append_assoc, List.singleton_append, ihLeft, ihRight,
        executeAll_binary, bind_assoc]
  | choose thenTree otherwise condition ihThen ihOtherwise ihCondition =>
      simp only [Tree.flat, Tree.value, List.append_assoc, List.singleton_append, ihThen, ihOtherwise,
        ihCondition, executeAll_choose, bind_assoc, pure_bind]
  | array first others index ihFirst ihOthers ihIndex =>
      simp only [Tree.flat, Tree.value, List.append_assoc, List.singleton_append, ihFirst,
        executeAll_flats ihOthers, ihIndex, bind_assoc, pure_bind]
      -- the command counts the trees, and the machine the values
      refine bind_congr fun a => ?_
      cases hfound : values sample others with
      | error e => rfl
      | ok found =>
          show (do
            let i ← index.value sample
            executeAll sample (.array (others.length + 1) :: rest) (i :: (found.reverse ++ a :: stack))) = _
          simp only [← length_of_values hfound, executeAll_array]
          rfl

/-- **The commands of trees leave their values**, the last on top. -/
theorem executeAll_forest [Host] (sample : Sample) (trees : List Tree) :
    executeAll sample (trees.flatMap Tree.flat) [] =
      (trees.mapM (Tree.value sample)).map List.reverse := by
  have htrees : ∀ tree ∈ trees, ∀ rest stack, executeAll sample (tree.flat ++ rest) stack = (do
      let value ← tree.value sample
      executeAll sample rest (value :: stack)) := fun tree _ => executeAll_flat sample tree
  rw [← List.append_nil (trees.flatMap Tree.flat), ← flats_eq_flatMap, executeAll_flats htrees,
    values_eq_mapM]
  cases trees.mapM (Tree.value sample) with
  | error e => rfl
  | ok found =>
      show Except.ok (found.reverse ++ []) = Except.ok found.reverse
      rw [List.append_nil]

/-! ## Commands determine their trees -/

/-- One command on a stack of trees, the top first: it takes its operands and leaves a node. -/
def regrow : Cmd → List Tree → Option (List Tree)
  | .var v, trees => some (.leaf (.var v) :: trees)
  | .float x, trees => some (.leaf (.float x) :: trees)
  | .int n, trees => some (.leaf (.int n) :: trees)
  | .hex n, trees => some (.leaf (.hex n) :: trees)
  | .array 0, trees => some (.leaf .zero :: trees)
  | .trig op, angle :: trees => some (.trig op angle :: trees)
  | .intOp op, right :: left :: trees => some (.binary (.int op) left right :: trees)
  | .floatOp op, right :: left :: trees => some (.binary (.float op) left right :: trees)
  | .compare op, right :: left :: trees => some (.binary (.compare op) left right :: trees)
  | .choose, condition :: otherwise :: thenTree :: trees =>
    some (.choose thenTree otherwise condition :: trees)
  | .array (size + 1), index :: trees =>
    match (trees.take (size + 1)).reverse with
    | first :: others => some (.array first others index :: trees.drop (size + 1))
    | [] => none
  | _, _ => none

/-- Commands in order on a stack of trees. -/
def regrowAll : List Cmd → List Tree → Option (List Tree)
  | [], trees => some trees
  | cmd :: rest, trees => do regrowAll rest (← regrow cmd trees)

theorem regrow_array (first : Tree) (others : List Tree) (index : Tree) (trees : List Tree) :
    regrow (.array (others.length + 1)) (index :: (others.reverse ++ first :: trees)) =
      some (.array first others index :: trees) := by
  have hstack : others.reverse ++ first :: trees = (first :: others).reverse ++ trees := by simp
  have htake : ((first :: others).reverse ++ trees).take (others.length + 1) = (first :: others).reverse :=
    List.take_left' (by simp)
  have hdrop : ((first :: others).reverse ++ trees).drop (others.length + 1) = trees :=
    List.drop_left' (by simp)
  rw [hstack, regrow, htake, hdrop, List.reverse_reverse]

theorem regrowAll_flats {forest : List Tree}
    (h : ∀ tree ∈ forest, ∀ rest trees,
      regrowAll (tree.flat ++ rest) trees = regrowAll rest (tree :: trees))
    (rest : List Cmd) (trees : List Tree) :
    regrowAll (flats forest ++ rest) trees = regrowAll rest (forest.reverse ++ trees) := by
  induction forest generalizing trees with
  | nil => rfl
  | cons tree others ih =>
      obtain ⟨htree, hothers⟩ := List.forall_mem_cons.mp h
      rw [flats, List.append_assoc, htree, ih hothers, List.reverse_cons, List.append_assoc,
        List.singleton_append]

/-- **The commands of a tree rebuild it.** -/
theorem regrowAll_flat (tree : Tree) (rest : List Cmd) (trees : List Tree) :
    regrowAll (tree.flat ++ rest) trees = regrowAll rest (tree :: trees) := by
  induction tree generalizing rest trees with
  | leaf leaf => cases leaf <;> rfl
  | trig op angle ih =>
      rw [Tree.flat, List.append_assoc, ih]
      rfl
  | binary op left right ihLeft ihRight =>
      rw [Tree.flat, List.append_assoc, List.append_assoc, ihLeft, ihRight]
      cases op <;> rfl
  | choose thenTree otherwise condition ihThen ihOtherwise ihCondition =>
      rw [Tree.flat, List.append_assoc, List.append_assoc, List.append_assoc, ihThen, ihOtherwise,
        ihCondition]
      rfl
  | array first others index ihFirst ihOthers ihIndex =>
      rw [Tree.flat, List.append_assoc, List.append_assoc, List.append_assoc, ihFirst,
        regrowAll_flats ihOthers, ihIndex, List.singleton_append, regrowAll, regrow_array]
      rfl

theorem regrowAll_forest (forest : List Tree) :
    regrowAll (forest.flatMap Tree.flat) [] = some forest.reverse := by
  rw [← List.append_nil (forest.flatMap Tree.flat), ← flats_eq_flatMap,
    regrowAll_flats (fun tree _ => regrowAll_flat tree), List.append_nil]
  rfl

/-- **Trees with the same commands are the same.** -/
theorem eq_of_flatMap_flat_eq {forest other : List Tree}
    (h : forest.flatMap Tree.flat = other.flatMap Tree.flat) : forest = other := by
  have hsame : some forest.reverse = some other.reverse := by
    rw [← regrowAll_forest, ← regrowAll_forest, h]
  exact List.reverse_inj.mp (Option.some.inj hsame)

/-! ## Commands that pass the check are those of trees -/

/-- A command without an effect on the stack. -/
def Cmd.isRemark : Cmd → Bool
  | remark _ _ | comment _ => true
  | _ => false

/-- The commands that have an effect. -/
def withoutRemarks (cmds : List Cmd) : List Cmd :=
  cmds.filter fun cmd => !cmd.isRemark

theorem isRemark_eq_isNone (cmd : Cmd) : cmd.isRemark = cmd.effect.isNone := by
  cases cmd <;> rfl

theorem execute_of_isRemark [Host] {cmd : Cmd} (h : cmd.isRemark = true) (sample : Sample) (stack : Stack) :
    execute sample cmd stack = .ok stack := by
  cases cmd with
  | remark _ _ | comment _ => rfl
  | _ => cases h

theorem executeAll_withoutRemarks [Host] (sample : Sample) (cmds : List Cmd) (stack : Stack) :
    executeAll sample (withoutRemarks cmds) stack = executeAll sample cmds stack := by
  induction cmds generalizing stack with
  | nil => rfl
  | cons cmd rest ih =>
      by_cases hremark : cmd.isRemark
      · rw [withoutRemarks, List.filter_cons_of_neg (by simp [hremark]), executeAll, execute_of_isRemark hremark]
        exact ih stack
      · rw [withoutRemarks, List.filter_cons_of_pos (by simp [hremark]), executeAll, executeAll]
        exact bind_congr fun next => ih next

/-- The trees on top of a stack become the values of an array. -/
theorem exists_take_reverse {trees : List Tree} {size : Nat} (h : size + 1 ≤ trees.length) :
    ∃ first others, (trees.take (size + 1)).reverse = first :: others ∧ others.length = size := by
  have hlength : (trees.take (size + 1)).reverse.length = size + 1 := by
    rw [List.length_reverse, List.length_take]
    omega
  obtain ⟨first, others, hsplit⟩ := List.exists_cons_of_length_eq_add_one hlength
  rw [hsplit, List.length_cons] at hlength
  exact ⟨first, others, hsplit, by omega⟩

theorem exists_leaf (leaf : Leaf) {change : Int} (heffect : leaf.cmd.effect = some change)
    {trees : List Tree} :
    ∃ after : List Tree,
      after.reverse.flatMap Tree.flat = trees.reverse.flatMap Tree.flat ++ [leaf.cmd] ∧
      (trees.length : Int) + change ≤ after.length := by
  have hchange : change ≤ 1 := by cases leaf <;> cases heffect <;> decide
  refine ⟨.leaf leaf :: trees, by simp [Tree.flat], ?_⟩
  rw [List.length_cons]
  omega

theorem exists_binary (op : BinaryOp) {change : Int} (heffect : op.cmd.effect = some change)
    {trees : List Tree} (hroom : 0 < (trees.length : Int) + change) :
    ∃ after : List Tree,
      after.reverse.flatMap Tree.flat = trees.reverse.flatMap Tree.flat ++ [op.cmd] ∧
      (trees.length : Int) + change ≤ after.length := by
  have hchange : change = -1 := by cases op <;> cases heffect <;> rfl
  obtain ⟨right, left, below, rfl⟩ := exists_two_of_length (show 2 ≤ trees.length by omega)
  refine ⟨.binary op left right :: below, by simp [Tree.flat], ?_⟩
  simp only [List.length_cons]
  omega

/-- A command that leaves something finds its operands, and makes them one tree. -/
theorem exists_node {cmd : Cmd} {change : Int} (heffect : cmd.effect = some change) {trees : List Tree}
    (hroom : 0 < (trees.length : Int) + change) :
    ∃ after : List Tree,
      after.reverse.flatMap Tree.flat = trees.reverse.flatMap Tree.flat ++ [cmd] ∧
      (trees.length : Int) + change ≤ after.length := by
  cases cmd with
  | var v => exact exists_leaf (.var v) heffect
  | float x => exact exists_leaf (.float x) heffect
  | int n => exact exists_leaf (.int n) heffect
  | hex n => exact exists_leaf (.hex n) heffect
  | intOp op => exact exists_binary (.int op) heffect hroom
  | floatOp op => exact exists_binary (.float op) heffect hroom
  | compare op => exact exists_binary (.compare op) heffect hroom
  | trig op =>
      cases heffect
      obtain ⟨angle, below, rfl⟩ := List.exists_cons_of_length_pos (show 0 < trees.length by omega)
      exact ⟨.trig op angle :: below, by simp [Tree.flat], by simp⟩
  | choose =>
      cases heffect
      obtain ⟨condition, otherwise, thenTree, below, rfl⟩ :=
        exists_three_of_length (show 3 ≤ trees.length by omega)
      refine ⟨.choose thenTree otherwise condition :: below, by simp [Tree.flat], ?_⟩
      simp only [List.length_cons]
      omega
  | array size =>
      cases heffect
      cases size with
      | zero => exact exists_leaf .zero rfl
      | succ size =>
          obtain ⟨arrayIndex, below, rfl⟩ :=
            List.exists_cons_of_length_pos (show 0 < trees.length by omega)
          rw [List.length_cons] at hroom
          -- the members of an array lie below its index, the first of them deepest
          obtain ⟨first, others, hsplit, rfl⟩ :=
            exists_take_reverse (show size + 1 ≤ below.length by omega)
          have hbelow : below.reverse = (below.drop (others.length + 1)).reverse ++ first :: others := by
            rw [← hsplit, ← List.reverse_append, List.take_append_drop]
          refine ⟨.array first others arrayIndex :: below.drop (others.length + 1), ?_, ?_⟩
          · simp [hbelow, Tree.flat, flats_eq_flatMap]
          · simp only [List.length_cons, List.length_drop]
            omega
  | remark key value => cases heffect
  | comment text => cases heffect

/-- **Commands that pass the check are those of trees**, as many as the height or more. -/
theorem exists_forest {cmds : List Cmd} {index : Nat} {height final : Int}
    (hheight : heightFrom index height cmds = .ok final) {trees : List Tree}
    (hroom : height ≤ trees.length) :
    ∃ after : List Tree,
      after.reverse.flatMap Tree.flat = trees.reverse.flatMap Tree.flat ++ withoutRemarks cmds ∧
      final ≤ after.length := by
  induction cmds generalizing index height trees with
  | nil =>
      cases hheight
      exact ⟨trees, by simp [withoutRemarks], hroom⟩
  | cons cmd rest ih =>
      obtain ⟨hleaves, hrest⟩ := heightFrom_cons_eq_ok hheight
      cases heffect : cmd.effect with
      | none =>
          have hremark : cmd.isRemark = true := by rw [isRemark_eq_isNone, heffect]; rfl
          have hskip : withoutRemarks (cmd :: rest) = withoutRemarks rest :=
            List.filter_cons_of_neg (by simp [hremark])
          rw [hskip]
          exact ih hrest (by simpa [heffect] using hroom)
      | some change =>
          have hkept : cmd.isRemark = false := by rw [isRemark_eq_isNone, heffect]; rfl
          have hkeep : withoutRemarks (cmd :: rest) = cmd :: withoutRemarks rest :=
            List.filter_cons_of_pos (by simp [hkept])
          have hchange := hleaves change heffect
          obtain ⟨next, hnext, hlength⟩ := exists_node heffect (show 0 < (trees.length : Int) + change by omega)
          have hnextRoom : height + cmd.effect.getD 0 ≤ next.length := by
            rw [heffect, Option.getD_some]
            omega
          obtain ⟨after, hafter, hfinal⟩ := ih hrest hnextRoom
          refine ⟨after, ?_, hfinal⟩
          rw [hafter, hnext, hkeep, List.append_assoc, List.singleton_append]

/-! ## Trees pass the check -/

theorem heightFrom_append_of_ok {first second : List Cmd} {index : Nat} {height after : Int}
    (h : heightFrom index height first = .ok after) :
    heightFrom index height (first ++ second) = heightFrom (index + first.length) after second := by
  rw [heightFrom_append, h]
  rfl

/-- A last command that leaves something. -/
theorem heightFrom_singleton {cmd : Cmd} {change : Int} (heffect : cmd.effect = some change) {index : Nat}
    {height final : Int} (hfinal : height + change = final) (hpos : 0 < final) :
    heightFrom index height [cmd] = .ok final := by
  simp only [heightFrom, heffect, hfinal, if_neg (Int.not_le.mpr hpos)]

/-- The commands of trees raise the height by their number, if those of each tree raise it by one. -/
theorem heightFrom_flats {trees : List Tree}
    (h : ∀ tree ∈ trees, ∀ index height, 0 ≤ height → heightFrom index height tree.flat = .ok (height + 1))
    {index : Nat} {height : Int} (hstart : 0 ≤ height) :
    heightFrom index height (flats trees) = .ok (height + trees.length) := by
  induction trees generalizing index height with
  | nil => simp [flats, heightFrom]
  | cons tree rest ih =>
      obtain ⟨htree, hrest⟩ := List.forall_mem_cons.mp h
      rw [flats, heightFrom_append_of_ok (htree index height hstart), ih hrest (by omega), List.length_cons]
      congr 1
      omega

/-- **The commands of a tree raise the checked height by one**, if no array in it is empty. -/
theorem heightFrom_flat {tree : Tree} (h : .array 0 ∉ tree.flat) (index : Nat) (height : Int)
    (hstart : 0 ≤ height) : heightFrom index height tree.flat = .ok (height + 1) := by
  induction tree generalizing index height with
  | leaf leaf =>
      have heffect : leaf.cmd.effect = some 1 := by
        cases leaf with
        -- an array of no values is the only leaf with another effect
        | zero => simp [Tree.flat, Leaf.cmd] at h
        | var | float | int | hex => rfl
      exact heightFrom_singleton heffect rfl (by omega)
  | trig op angle ih =>
      simp only [Tree.flat, List.mem_append, not_or] at h
      rw [Tree.flat, heightFrom_append_of_ok (ih h.1 index height hstart)]
      exact heightFrom_singleton rfl (Int.add_zero _) (by omega)
  | binary op left right ihLeft ihRight =>
      simp only [Tree.flat, List.mem_append, not_or] at h
      obtain ⟨⟨hleft, hright⟩, -⟩ := h
      have heffect : op.cmd.effect = some (-1) := by cases op <;> rfl
      rw [Tree.flat, List.append_assoc, heightFrom_append_of_ok (ihLeft hleft index height hstart),
        heightFrom_append_of_ok (ihRight hright _ (height + 1) (by omega))]
      exact heightFrom_singleton heffect (by omega) (by omega)
  | choose thenTree otherwise condition ihThen ihOtherwise ihCondition =>
      simp only [Tree.flat, List.mem_append, not_or] at h
      obtain ⟨⟨⟨hthen, hotherwise⟩, hcondition⟩, -⟩ := h
      rw [Tree.flat, List.append_assoc, List.append_assoc,
        heightFrom_append_of_ok (ihThen hthen index height hstart),
        heightFrom_append_of_ok (ihOtherwise hotherwise _ (height + 1) (by omega)),
        heightFrom_append_of_ok (ihCondition hcondition _ (height + 1 + 1) (by omega))]
      exact heightFrom_singleton rfl (by omega) (by omega)
  | array first others chooser ihFirst ihOthers ihChooser =>
      simp only [Tree.flat, List.mem_append, not_or, flats_eq_flatMap, List.mem_flatMap, not_exists,
        not_and] at h
      obtain ⟨⟨⟨hfirst, hothers⟩, hchooser⟩, -⟩ := h
      have hflats : ∀ tree ∈ others, ∀ index height, 0 ≤ height →
          heightFrom index height tree.flat = .ok (height + 1) := fun tree hmem =>
        ihOthers tree hmem (hothers tree hmem)
      rw [Tree.flat, List.append_assoc, List.append_assoc,
        heightFrom_append_of_ok (ihFirst hfirst index height hstart),
        heightFrom_append_of_ok (heightFrom_flats hflats (show 0 ≤ height + 1 by omega)),
        heightFrom_append_of_ok (ihChooser hchooser _ (height + 1 + others.length) (by omega))]
      exact heightFrom_singleton rfl (by omega) (by omega)

/-! ## Formulas and trees -/

theorem Program.exists_compile {cmds : List Cmd} {height : Int} (hheight : heightFrom 0 0 cmds = .ok height)
    (hne : height ≠ 0) : ∃ program, compile cmds = .ok program := by
  unfold compile
  split
  · rename_i shortage herror
    rw [hheight] at herror
    cases herror
  · rename_i found hfound
    rw [hheight] at hfound
    cases hfound
    exact ⟨_, dif_neg hne⟩

/-- The last stack of a trace is the one that the commands leave. -/
theorem getLast?_traceFrom [Host] {sample : Sample} {cmds : List Cmd} {last : Stack} (hne : cmds ≠ [])
    (h : executeAll sample cmds [] = .ok last) :
    ∃ entries, traceFrom sample cmds [] = .ok entries ∧ (entries.map Prod.snd).getLast? = some last := by
  obtain ⟨entries, hentries, hfirst, hafter⟩ := traceFrom_eq_ok h
  refine ⟨entries, hentries, ?_⟩
  have hlength : entries.length = cmds.length := by rw [← hfirst, List.length_map]
  have hpos : 0 < cmds.length := List.length_pos_iff.mpr hne
  have hplace : cmds.length - 1 < (entries.map Prod.snd).length := by
    rw [List.length_map]
    omega
  have hstack := hafter (cmds.length - 1) _ (List.getElem?_eq_getElem hplace)
  rw [Nat.sub_add_cancel hpos, List.take_length, h] at hstack
  rw [List.getLast?_eq_getElem?, List.length_map, hlength, List.getElem?_eq_getElem hplace,
    Except.ok.inj hstack]

theorem Program.cmds_ne_nil (program : Program) : program.cmds ≠ [] := by
  intro hnil
  have hheight := program.height_eq
  rw [hnil] at hheight
  exact program.height_ne (Except.ok.inj hheight).symm

/-- A formula is the list of its trees, and there is one at least. -/
theorem Program.exists_trees (program : Program) :
    ∃ trees : List Tree, trees ≠ [] ∧ trees.flatMap Tree.flat = withoutRemarks program.cmds := by
  have hempty : (0 : Int) ≤ ([] : List Tree).length := Int.le_refl 0
  obtain ⟨after, hafter, hlength⟩ := exists_forest program.height_eq hempty
  have hpos := program.height_pos
  refine ⟨after.reverse, ?_, by simpa using hafter⟩
  intro hnil
  rw [List.reverse_eq_nil_iff] at hnil
  rw [hnil, List.length_nil] at hlength
  omega

/-- What the commands of trees leave are the values of the trees. -/
theorem exists_values [Host] {sample : Sample} {trees : List Tree} {cmds : List Cmd} {last : Stack}
    (hflat : trees.flatMap Tree.flat = withoutRemarks cmds) (h : executeAll sample cmds [] = .ok last) :
    ∃ found, trees.mapM (Tree.value sample) = .ok found ∧ last = found.reverse := by
  rw [← executeAll_withoutRemarks, ← hflat, executeAll_forest] at h
  cases hfound : trees.mapM (Tree.value sample) with
  | error e =>
      rw [hfound] at h
      cases h
  | ok found =>
      rw [hfound] at h
      exact ⟨found, rfl, (Except.ok.inj h).symm⟩

/-- **A formula means what its trees mean.** The commands of a formula without its remarks are those of
exactly one list of trees, which is not empty. On every sample the last stack of its trace holds the
values of these trees, so that the value of the formula is that of the last tree. Conversely one or more
trees make a formula, if no array in them is empty. -/
theorem eval_eq_tree_value [Host] :
    (∀ cmds program, Program.compile cmds = .ok program → (∀ cmd ∈ cmds, cmd.FitsWord) →
      ∃ trees : List Tree,
        (∀ other : List Tree,
          (other ≠ [] ∧ other.flatMap Tree.flat = withoutRemarks cmds) ↔ other = trees) ∧
        ∀ raw : RawSample, raw.Numeric → ∀ scratch, ∃ sample found entries value,
          Sample.ofData raw = .ok sample ∧ trees.mapM (Tree.value sample) = .ok found ∧
          trace program raw = .ok entries ∧
          (entries.map Prod.snd).getLast? = some found.reverse ∧
          found.getLast? = some value ∧
          eval scratch program raw = (.ok value, found.dropLast.reverse)) ∧
    (∀ trees : List Tree, trees ≠ [] → (∀ tree ∈ trees, .array 0 ∉ tree.flat) →
      ∃ program, Program.compile (trees.flatMap Tree.flat) = .ok program) := by
  refine ⟨?_, ?_⟩
  · intro cmds program hcompile hcmds
    obtain rfl := Program.compile_eq_ok hcompile
    obtain ⟨trees, hne, hflat⟩ := program.exists_trees
    refine ⟨trees, ?_, ?_⟩
    · intro other
      refine ⟨fun h => eq_of_flatMap_flat_eq (h.2.trans hflat.symm), ?_⟩
      rintro rfl
      exact ⟨hne, hflat⟩
    · intro raw hraw scratch
      obtain ⟨sample, hsample, hfits⟩ := Sample.exists_ofData hraw
      obtain ⟨last, hlast, -, hlength⟩ :=
        executeAll_fits hfits hcmds program.height_eq allFit_nil (Int.le_refl 0)
      obtain ⟨found, hfound, rfl⟩ := exists_values hflat hlast
      obtain ⟨entries, hentries, hend⟩ := getLast?_traceFrom program.cmds_ne_nil hlast
      -- the height that was checked is positive, so there is a value on top
      have hfoundNe : found ≠ [] := by
        rintro rfl
        have hpos := program.height_pos
        simp at hlength
        omega
      refine ⟨sample, found, entries, found.getLast hfoundNe, hsample, hfound,
        (trace_of_traceFrom hsample).trans hentries, hend, List.getLast?_eq_some_getLast hfoundNe, ?_⟩
      apply eval_of_executeAll hsample
      rw [hlast, ← List.reverse_concat, List.dropLast_concat_getLast hfoundNe]
  · intro trees hne hzero
    have hheight : heightFrom 0 0 (trees.flatMap Tree.flat) = .ok (0 + trees.length) := by
      rw [← flats_eq_flatMap]
      exact heightFrom_flats (fun tree hmem => heightFrom_flat (hzero tree hmem)) (Int.le_refl 0)
    have hpos : 0 < trees.length := List.length_pos_iff.mpr hne
    exact Program.exists_compile hheight (by omega)

/-- A number, an array of two values and a sum with an empty array: `5 t 0x7 sx [2 # [0 2 +.`. -/
def arrays : List Cmd :=
  [.int 5, .var .frame, .hex 7, .var .screenX, .array 2, .comment [], .array 0, .int 2, .floatOp .add]

/-- The trees of `arrays`. -/
def arrayTrees : List Tree :=
  [.leaf (.int 5), .array (.leaf (.var .frame)) [.leaf (.hex 7)] (.leaf (.var .screenX)),
    .binary (.float .add) (.leaf .zero) (.leaf (.int 2))]

open scoped Host in
theorem eval_eq_tree_value_arrays :
    (∃ program, Program.compile arrays = .ok program ∧ (∀ cmd ∈ arrays, cmd.FitsWord) ∧ mixed.Numeric ∧
      arrayTrees.flatMap Tree.flat = withoutRemarks arrays ∧
      ∃ sample found value, Sample.ofData mixed = .ok sample ∧
        arrayTrees.mapM (Tree.value sample) = .ok found ∧ found.getLast? = some value ∧
        eval [] program mixed = (.ok value, found.dropLast.reverse)) ∧
    ((∀ tree ∈ arrayTrees.take 2, .array 0 ∉ tree.flat) ∧
      ∃ program, Program.compile ((arrayTrees.take 2).flatMap Tree.flat) = .ok program) := by
  obtain ⟨hforward, hconverse⟩ := eval_eq_tree_value
  refine ⟨?_, ?_⟩
  · have hcompile : Program.compile arrays = .ok ⟨arrays, 2, rfl, by decide⟩ := rfl
    have hcmds : ∀ cmd ∈ arrays, cmd.FitsWord := by decide
    have hraw : mixed.Numeric := by decide
    have hflat : arrayTrees.flatMap Tree.flat = withoutRemarks arrays := rfl
    obtain ⟨trees, hunique, hvalues⟩ := hforward arrays _ hcompile hcmds
    obtain rfl : arrayTrees = trees := (hunique arrayTrees).mp ⟨by decide, hflat⟩
    obtain ⟨sample, found, -, value, hsample, hfound, -, -, hlast, heval⟩ := hvalues mixed hraw []
    exact ⟨_, hcompile, hcmds, hraw, hflat, sample, found, value, hsample, hfound, hlast, heval⟩
  · have hzero : ∀ tree ∈ arrayTrees.take 2, .array 0 ∉ tree.flat := by decide
    exact ⟨hzero, hconverse _ (by decide) hzero⟩

end ProgramArt.Beat
