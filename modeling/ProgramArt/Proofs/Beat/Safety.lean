import ProgramArt.Beat.Eval
import ProgramArt.Host.Standard
import ProgramArt.Proofs.Number.Binary64
import ProgramArt.Proofs.Number.Word64

/-!
# Formulas evaluate safely

The height that is checked before a formula runs is not the height that its stack has when it runs: an array of no
values counts as if it took its index, but pushes a zero. What holds is that the stack is never lower than was
checked, and higher by exactly the number of such arrays (`executeAll_fits`). So no command finds too little on it,
and since every command leaves words where it found words, `Value.FitsWord`, no integer gets too large for a double
either.
-/

namespace ProgramArt.Beat

/-! ## Values in the range of words -/

/-- A double, or an integer in the range of words. -/
def Value.FitsWord : Value → Prop
  | int n => Word64.IsWord n
  | float _ => True

/-- Every integer on a stack is in the range of words. -/
def AllFit (stack : Stack) : Prop :=
  ∀ value ∈ stack, value.FitsWord

@[simp] theorem allFit_nil : AllFit [] := by simp [AllFit]

@[simp] theorem allFit_cons {value : Value} {stack : Stack} :
    AllFit (value :: stack) ↔ value.FitsWord ∧ AllFit stack := by
  simp [AllFit]

theorem AllFit.drop {stack : Stack} (h : AllFit stack) (count : Nat) : AllFit (stack.drop count) :=
  fun value hmem => h value (List.mem_of_mem_drop hmem)

namespace Value

/-- The integer view of a value that fits is a word, since doubles are clamped. -/
theorem isWord_toInt {v : Value} (h : v.FitsWord) : Word64.IsWord v.toInt := by
  cases v with
  | int n => exact h
  | float x =>
      rw [toInt]
      split
      · exact Word64.isWord_zero
      · split <;> decide
      · exact Word64.isWord_clamp _

/-- A word always has a double view. -/
theorem exists_toFloat {v : Value} (h : v.FitsWord) : ∃ x, v.toFloat = .ok x := by
  cases v with
  | int n =>
      have hsmall : n.natAbs < 2 ^ 64 := by
        have hword := Word64.isWord_iff.mp h
        omega
      obtain ⟨x, hx⟩ := Binary64.exists_ofInt? hsmall
      exact ⟨x, by simp [toFloat, hx]⟩
  | float x => exact ⟨x, rfl⟩

/-- Values that fit can be tested for equality. -/
theorem exists_equal {v w : Value} (hv : v.FitsWord) (hw : w.FitsWord) : ∃ b, v.equal w = .ok b := by
  obtain ⟨x, hx⟩ := exists_toFloat hv
  obtain ⟨y, hy⟩ := exists_toFloat hw
  cases v <;> cases w <;> simp_all [equal, pure, Except.pure, bind, Except.bind]

/-- A comparison: of integers as they are, and of double views otherwise. -/
def compared (integers : Int → Int → Bool) (doubles : Float → Float → Bool) :
    Value → Value → Except EvalError Bool
  | int m, int n => .ok (integers m n)
  | v, w => do
    let x ← v.toFloat
    let y ← w.toFloat
    return doubles x y

/-- `Value.less` compares integers as they are and all else by double views. -/
theorem less_eq_compared (v w : Value) :
    v.less w = compared (fun m n => decide (m < n)) (fun x y => decide (x < y)) v w := by
  cases v <;> cases w <;> rfl

/-- And so does `Value.atMost`. -/
theorem atMost_eq_compared (v w : Value) :
    v.atMost w = compared (fun m n => decide (m ≤ n)) (fun x y => decide (x ≤ y)) v w := by
  cases v <;> cases w <;> rfl

section

variable {v w : Value} {integers : Int → Int → Bool} {doubles : Float → Float → Bool}

/-- Where one of two values is a double, the double views are compared. -/
theorem compared_of_views {x y : Float} (hx : v.toFloat = .ok x) (hy : w.toFloat = .ok y)
    (hdouble : ∀ m n, v = int m → w ≠ int n) : compared integers doubles v w = .ok (doubles x y) := by
  match v, w with
  | int m, int n => exact absurd rfl (hdouble m n rfl)
  | int _, float _ | float _, int _ | float _, float _ =>
    rw [compared, hx, hy]
    · rfl
    all_goals simp

theorem exists_compared (hv : v.FitsWord) (hw : w.FitsWord) : ∃ b, compared integers doubles v w = .ok b := by
  match v, w with
  | int m, int n => exact ⟨integers m n, rfl⟩
  | int _, float _ | float _, int _ | float _, float _ =>
    obtain ⟨x, hx⟩ := exists_toFloat hv
    obtain ⟨y, hy⟩ := exists_toFloat hw
    exact ⟨doubles x y, compared_of_views hx hy (by simp)⟩

end

end Value

/-- Every operator on integers takes words to a word, whether or not it wraps its result. -/
theorem IntOp.isWord_apply (op : IntOp) {a b : Int} (ha : Word64.IsWord a) (hb : Word64.IsWord b) :
    Word64.IsWord (op.apply a b) := by
  cases op with
  | add | sub | mul => exact Word64.isWord_wrap _
  | div => exact Word64.isWord_quotient a b
  | mod => exact Word64.isWord_remainder a b
  | shl => exact Word64.isWord_shiftLeft a b
  | shr => exact Word64.isWord_shiftRight ha b
  | and => exact Word64.isWord_and ha hb
  | or => exact Word64.isWord_or ha hb
  | xor => exact Word64.isWord_xor ha hb

/-- Every comparison of values that fit has an answer. -/
theorem CompareOp.exists_apply (op : CompareOp) {v w : Value} (hv : v.FitsWord) (hw : w.FitsWord) :
    ∃ b, op.apply v w = .ok b := by
  cases op with
  | lt =>
      rw [apply, Value.less_eq_compared]
      exact Value.exists_compared hv hw
  | gt =>
      rw [apply, Value.less_eq_compared]
      exact Value.exists_compared hw hv
  | le =>
      rw [apply, Value.atMost_eq_compared]
      exact Value.exists_compared hv hw
  | ge =>
      rw [apply, Value.atMost_eq_compared]
      exact Value.exists_compared hw hv
  | eq => exact Value.exists_equal hv hw
  | ne =>
      obtain ⟨b, hb⟩ := Value.exists_equal hv hw
      exact ⟨!b, by simp [apply, hb, pure, Except.pure, bind, Except.bind]⟩

/-! ## Samples and literals in the range of words -/

/-- Every variable stands for a double or for an integer in the range of words. -/
def Sample.FitsWord (sample : Sample) : Prop :=
  ∀ v, (sample.get v).FitsWord

/-- The integer that a command pushes. -/
def Cmd.literal? : Cmd → Option Int
  | int n | hex n => some n
  | _ => none

/-- A command whose literal, if it has an integer one, is in the range of words. -/
def Cmd.FitsWord (cmd : Cmd) : Prop :=
  ∀ n ∈ cmd.literal?, Word64.IsWord n

instance (cmd : Cmd) : Decidable cmd.FitsWord :=
  inferInstanceAs (Decidable (∀ n ∈ cmd.literal?, Word64.IsWord n))

/-- A datum that is a number or a truth value. -/
def isNumeric : Datum → Bool
  | .bool _ | .int _ | .float _ | .nan _ => true
  | _ => false

/-- The seven data of a sample. -/
def RawSample.data (raw : RawSample) : List Datum :=
  [raw.frame, raw.mouseX, raw.mouseY, raw.screenX, raw.screenY, raw.keyX, raw.keyY]

/-- All seven data are numbers or truth values. -/
def RawSample.Numeric (raw : RawSample) : Prop :=
  ∀ datum ∈ raw.data, isNumeric datum = true

instance (raw : RawSample) : Decidable raw.Numeric :=
  inferInstanceAs (Decidable (∀ datum ∈ raw.data, isNumeric datum = true))

/-- A value from outside fits, since its integer is wrapped. -/
theorem Value.fitsWord_of_ofDatum {datum : Datum} {v : Value} (h : ofDatum datum = .ok v) :
    v.FitsWord := by
  unfold ofDatum at h
  split at h <;> cases h
  · exact (by decide : Word64.IsWord 1)
  · exact Word64.isWord_zero
  · exact Word64.isWord_wrap _
  · trivial
  · trivial

theorem Value.exists_ofDatum {datum : Datum} (h : isNumeric datum = true) :
    ∃ v, ofDatum datum = .ok v := by
  unfold isNumeric at h
  split at h
  · rename_i value
    cases value <;> exact ⟨_, rfl⟩
  · exact ⟨_, rfl⟩
  · exact ⟨_, rfl⟩
  · exact ⟨_, rfl⟩
  · cases h

/-- Numbers and truth values make a sample, which fits. -/
theorem Sample.exists_ofData {raw : RawSample} (h : raw.Numeric) :
    ∃ sample, ofData raw = .ok sample ∧ sample.FitsWord := by
  simp only [RawSample.Numeric, RawSample.data, List.forall_mem_cons] at h
  obtain ⟨hframe, hmouseX, hmouseY, hscreenX, hscreenY, hkeyX, hkeyY, -⟩ := h
  obtain ⟨frame, hframe⟩ := Value.exists_ofDatum hframe
  obtain ⟨mouseX, hmouseX⟩ := Value.exists_ofDatum hmouseX
  obtain ⟨mouseY, hmouseY⟩ := Value.exists_ofDatum hmouseY
  obtain ⟨screenX, hscreenX⟩ := Value.exists_ofDatum hscreenX
  obtain ⟨screenY, hscreenY⟩ := Value.exists_ofDatum hscreenY
  obtain ⟨keyX, hkeyX⟩ := Value.exists_ofDatum hkeyX
  obtain ⟨keyY, hkeyY⟩ := Value.exists_ofDatum hkeyY
  refine ⟨⟨frame, mouseX, mouseY, screenX, screenY, keyX, keyY⟩, ?_, ?_⟩
  · simp [ofData, hframe, hmouseX, hmouseY, hscreenX, hscreenY, hkeyX, hkeyY, pure, Except.pure, bind,
      Except.bind]
  · intro v
    cases v with
    | frame => exact Value.fitsWord_of_ofDatum hframe
    | mouseX => exact Value.fitsWord_of_ofDatum hmouseX
    | mouseY => exact Value.fitsWord_of_ofDatum hmouseY
    | screenX => exact Value.fitsWord_of_ofDatum hscreenX
    | screenY => exact Value.fitsWord_of_ofDatum hscreenY
    | keyX => exact Value.fitsWord_of_ofDatum hkeyX
    | keyY => exact Value.fitsWord_of_ofDatum hkeyY

/-! ## One command -/

theorem exists_two_of_length {α : Type} {stack : List α} (h : 2 ≤ stack.length) :
    ∃ b a rest, stack = b :: a :: rest := by
  match stack, h with
  | b :: a :: rest, _ => exact ⟨b, a, rest, rfl⟩

theorem exists_three_of_length {α : Type} {stack : List α} (h : 3 ≤ stack.length) :
    ∃ c b a rest, stack = c :: b :: a :: rest := by
  match stack, h with
  | c :: b :: a :: rest, _ => exact ⟨c, b, a, rest, rfl⟩

/-- `popCount` takes what there is, up to a number of values. -/
theorem popCount_natCast {α : Type} (stack : List α) (n : Nat) :
    popCount stack n = ((stack.take n).reverse, stack.drop n) := by
  rw [popCount, if_neg (by omega), Int.toNat_natCast]

/-- An index, whatever its sign, chooses one of the values that are there. -/
theorem exists_chosen? {size : Nat} {stack : Stack} (hsize : 0 < size) (h : size ≤ stack.length)
    (index : Int) : ∃ value ∈ stack, chosen? size index stack = some value := by
  have hplace : (index % size).toNat < (stack.take size).reverse.length := by
    have hlt := Int.emod_lt_of_pos index (Int.natCast_pos.mpr hsize)
    rw [List.length_reverse, List.length_take_of_le h]
    omega
  refine ⟨(stack.take size).reverse[(index % size).toNat], ?_, ?_⟩
  · exact List.mem_of_mem_take (List.mem_reverse.mp (List.getElem_mem hplace))
  · rw [chosen?, popCount_natCast, List.getElem?_eq_getElem hplace]

/-- An array of at least one value, on a stack with an index on top. -/
theorem execute_array [Host] (sample : Sample) (others : Nat) (index : Value) (rest : Stack) :
    execute sample (.array (others + 1)) (index :: rest)
      = match chosen? (others + 1) index.toInt rest with
        | some value => .ok (value :: rest.drop (others + 1))
        | none => .error .underflow := by
  have hrest : (popCount rest ((others + 1 : Nat) : Int)).2 = rest.drop (others + 1) := by
    rw [popCount_natCast]
  rw [← hrest]
  rfl

theorem count_eq_zero {cmd : Cmd} (h : cmd ≠ .array 0) : [cmd].count (.array 0) = 0 :=
  List.count_eq_zero.mpr (by simpa using h.symm)

/-- A command other than an array of no values, if it leaves one value above those that it does not take. -/
theorem execute_fits_of_eq [Host] {sample : Sample} {cmd : Cmd} {stack rest : Stack} {value : Value}
    (hexecute : execute sample cmd stack = .ok (value :: rest)) (hvalue : value.FitsWord) (hrest : AllFit rest)
    (hne : cmd ≠ .array 0) (hlength : (rest.length : Int) + 1 = stack.length + cmd.effect.getD 0) :
    ∃ after, execute sample cmd stack = .ok after ∧ AllFit after ∧
      (after.length : Int) = stack.length + cmd.effect.getD 0 + [cmd].count (.array 0) := by
  refine ⟨value :: rest, hexecute, allFit_cons.mpr ⟨hvalue, hrest⟩, ?_⟩
  rw [count_eq_zero hne, List.length_cons]
  omega

/-- **One command on a stack that is high enough.** It succeeds, changes the height as was checked, but
for an array of no values, and leaves words. -/
theorem execute_fits [Host] {sample : Sample} {cmd : Cmd} {stack : Stack} (hsample : sample.FitsWord)
    (hcmd : cmd.FitsWord) (hstack : AllFit stack)
    (hroom : ∀ change, cmd.effect = some change → 0 < (stack.length : Int) + change) :
    ∃ after, execute sample cmd stack = .ok after ∧ AllFit after ∧
      (after.length : Int) = stack.length + cmd.effect.getD 0 + [cmd].count (.array 0) := by
  cases cmd with
  | var v => exact ⟨_, rfl, allFit_cons.mpr ⟨hsample v, hstack⟩, by simp [Cmd.effect]⟩
  | float x => exact ⟨_, rfl, allFit_cons.mpr ⟨trivial, hstack⟩, by simp [Cmd.effect]⟩
  | int n => exact ⟨_, rfl, allFit_cons.mpr ⟨hcmd n rfl, hstack⟩, by simp [Cmd.effect]⟩
  | hex n => exact ⟨_, rfl, allFit_cons.mpr ⟨hcmd n rfl, hstack⟩, by simp [Cmd.effect]⟩
  | intOp op =>
      have hlength := hroom (-1) rfl
      obtain ⟨b, a, rest, rfl⟩ := exists_two_of_length (show 2 ≤ stack.length by omega)
      obtain ⟨hb, ha, hrest⟩ : b.FitsWord ∧ a.FitsWord ∧ AllFit rest := by simpa using hstack
      have hresult := op.isWord_apply (Value.isWord_toInt ha) (Value.isWord_toInt hb)
      refine execute_fits_of_eq rfl hresult hrest (by simp) ?_
      simp only [Cmd.effect, Option.getD_some, List.length_cons]
      omega
  | trig op =>
      have hlength := hroom 0 rfl
      obtain ⟨a, rest, rfl⟩ := List.exists_cons_of_length_pos (show 0 < stack.length by omega)
      obtain ⟨ha, hrest⟩ := allFit_cons.mp hstack
      obtain ⟨x, hx⟩ := Value.exists_toFloat ha
      have hexecute : execute sample (.trig op) (a :: rest) = .ok (.float (op.apply x) :: rest) := by
        simp [execute, hx, pure, Except.pure, bind, Except.bind]
      exact execute_fits_of_eq hexecute trivial hrest (by simp) (by simp [Cmd.effect])
  | floatOp op =>
      have hlength := hroom (-1) rfl
      obtain ⟨b, a, rest, rfl⟩ := exists_two_of_length (show 2 ≤ stack.length by omega)
      obtain ⟨hb, ha, hrest⟩ : b.FitsWord ∧ a.FitsWord ∧ AllFit rest := by simpa using hstack
      obtain ⟨x, hx⟩ := Value.exists_toFloat ha
      obtain ⟨y, hy⟩ := Value.exists_toFloat hb
      have hexecute : execute sample (.floatOp op) (b :: a :: rest) = .ok (.float (op.apply x y) :: rest) := by
        simp [execute, hx, hy, pure, Except.pure, bind, Except.bind]
      refine execute_fits_of_eq hexecute trivial hrest (by simp) ?_
      simp only [Cmd.effect, Option.getD_some, List.length_cons]
      omega
  | compare op =>
      have hlength := hroom (-1) rfl
      obtain ⟨b, a, rest, rfl⟩ := exists_two_of_length (show 2 ≤ stack.length by omega)
      obtain ⟨hb, ha, hrest⟩ : b.FitsWord ∧ a.FitsWord ∧ AllFit rest := by simpa using hstack
      obtain ⟨holds, hholds⟩ := op.exists_apply ha hb
      have hbit : (Value.int (if holds = true then 1 else 0)).FitsWord := by
        cases holds
        · exact Word64.isWord_zero
        · exact (by decide : Word64.IsWord 1)
      have hexecute : execute sample (.compare op) (b :: a :: rest)
          = .ok (.int (if holds = true then 1 else 0) :: rest) := by
        simp [execute, hholds, pure, Except.pure, bind, Except.bind]
      refine execute_fits_of_eq hexecute hbit hrest (by simp) ?_
      simp only [Cmd.effect, Option.getD_some, List.length_cons]
      omega
  | choose =>
      have hlength := hroom (-2) rfl
      obtain ⟨condition, otherwise, thenValue, rest, rfl⟩ :=
        exists_three_of_length (show 3 ≤ stack.length by omega)
      obtain ⟨-, hotherwise, hthen, hrest⟩ :
          condition.FitsWord ∧ otherwise.FitsWord ∧ thenValue.FitsWord ∧ AllFit rest := by
        simpa using hstack
      have hresult : (if condition.isTrue then thenValue else otherwise).FitsWord := by
        split
        · exact hthen
        · exact hotherwise
      refine execute_fits_of_eq rfl hresult hrest (by simp) ?_
      simp only [Cmd.effect, Option.getD_some, List.length_cons]
      omega
  | array size =>
      have hlength := hroom (-(size : Int)) rfl
      cases size with
      -- an array of no values takes no index, so the stack is one higher than was checked
      | zero => exact ⟨_, rfl, allFit_cons.mpr ⟨Word64.isWord_zero, hstack⟩, by simp [Cmd.effect]⟩
      | succ others =>
          obtain ⟨index, rest, rfl⟩ := List.exists_cons_of_length_pos (show 0 < stack.length by omega)
          obtain ⟨-, hrest⟩ := allFit_cons.mp hstack
          rw [List.length_cons] at hlength
          obtain ⟨value, hmem, hvalue⟩ :=
            exists_chosen? (Nat.succ_pos others) (show others + 1 ≤ rest.length by omega) index.toInt
          have hexecute : execute sample (.array (others + 1)) (index :: rest)
              = .ok (value :: rest.drop (others + 1)) := by
            rw [execute_array, hvalue]
          refine execute_fits_of_eq hexecute (hrest value hmem) (hrest.drop (others + 1)) (by simp) ?_
          simp only [Cmd.effect, Option.getD_some, List.length_cons, List.length_drop]
          omega
  | remark key value => exact ⟨_, rfl, hstack, by simp [Cmd.effect]⟩
  | comment text => exact ⟨_, rfl, hstack, by simp [Cmd.effect]⟩

/-! ## The checked height -/

/-- Commands are checked in two parts, of which the second is numbered on. -/
theorem heightFrom_append (index : Nat) (height : Int) (first second : List Cmd) :
    heightFrom index height (first ++ second) =
      (heightFrom index height first).bind fun after => heightFrom (index + first.length) after second := by
  induction first generalizing index height with
  | nil => rfl
  | cons cmd rest ih =>
      rw [List.cons_append, heightFrom, heightFrom, List.length_cons, Nat.add_comm rest.length 1,
        ← Nat.add_assoc]
      split
      · exact ih (index + 1) height
      · split
        · rfl
        · exact ih (index + 1) _

/-- What comes first in a list that passes the check passes it too. -/
theorem exists_heightFrom_take {cmds : List Cmd} {index : Nat} {height final : Int}
    (h : heightFrom index height cmds = .ok final) (count : Nat) :
    ∃ depth, heightFrom index height (cmds.take count) = .ok depth := by
  rw [← List.take_append_drop count cmds, heightFrom_append] at h
  cases hdepth : heightFrom index height (cmds.take count) with
  | ok depth => exact ⟨depth, rfl⟩
  | error shortage =>
      rw [hdepth] at h
      cases h

/-- A command passes the check if it leaves something, and what follows passes from there on. -/
theorem heightFrom_cons_eq_ok {cmd : Cmd} {rest : List Cmd} {index : Nat} {height final : Int}
    (h : heightFrom index height (cmd :: rest) = .ok final) :
    (∀ change, cmd.effect = some change → 0 < height + change) ∧
      heightFrom (index + 1) (height + cmd.effect.getD 0) rest = .ok final := by
  rw [heightFrom] at h
  cases heffect : cmd.effect with
  | none =>
      rw [heffect] at h
      exact ⟨by simp, by simpa using h⟩
  | some change =>
      simp only [heffect] at h
      split at h
      · cases h
      · refine ⟨?_, h⟩
        intro other hother
        cases hother
        omega

/-- The check never lets the height fall below zero. -/
theorem heightFrom_nonneg {cmds : List Cmd} {index : Nat} {height final : Int} (hstart : 0 ≤ height)
    (h : heightFrom index height cmds = .ok final) : 0 ≤ final := by
  induction cmds generalizing index height with
  | nil =>
      cases h
      exact hstart
  | cons cmd rest ih =>
      obtain ⟨hleaves, hrest⟩ := heightFrom_cons_eq_ok h
      refine ih ?_ hrest
      cases heffect : cmd.effect with
      | none => simpa using hstart
      | some change => exact Int.le_of_lt (hleaves change heffect)

/-- Something is left by every formula. -/
theorem Program.height_pos (program : Program) : 0 < program.height := by
  have hnonneg := heightFrom_nonneg (Int.le_refl 0) program.height_eq
  have hne := program.height_ne
  omega

theorem Program.compile_eq_ok {cmds : List Cmd} {program : Program} (h : compile cmds = .ok program) :
    program.cmds = cmds := by
  unfold compile at h
  split at h
  · cases h
  · split at h
    · cases h
    · cases h
      rfl

/-- A `Program` is what is compiled from its commands. -/
theorem Program.compile_cmds (program : Program) : compile program.cmds = .ok program := by
  unfold compile
  split
  · rename_i shortage herror
    rw [program.height_eq] at herror
    cases herror
  · rename_i height hheight
    rw [program.height_eq] at hheight
    cases hheight
    exact dif_neg program.height_ne

/-! ## Many commands -/

/-- **Commands that pass the check, on a stack at least as high as was checked.** They succeed, leave
words, and each array of no values leaves one value more than was checked. -/
theorem executeAll_fits [Host] {sample : Sample} (hsample : sample.FitsWord) {cmds : List Cmd}
    (hcmds : ∀ cmd ∈ cmds, cmd.FitsWord) {index : Nat} {height final : Int}
    (hheight : heightFrom index height cmds = .ok final) {stack : Stack} (hstack : AllFit stack)
    (hroom : height ≤ stack.length) :
    ∃ last, executeAll sample cmds stack = .ok last ∧ AllFit last ∧
      (last.length : Int) = stack.length + (final - height) + cmds.count (.array 0) := by
  induction cmds generalizing index height stack with
  | nil =>
      cases hheight
      exact ⟨stack, rfl, hstack, by simp⟩
  | cons cmd rest ih =>
      obtain ⟨hleaves, hrest⟩ := heightFrom_cons_eq_ok hheight
      rw [List.forall_mem_cons] at hcmds
      obtain ⟨after, hafter, hfits, hlength⟩ := execute_fits hsample hcmds.1 hstack
        (fun change heffect => by have hchange := hleaves change heffect; omega)
      have hcount : (cmd :: rest).count (.array 0) = [cmd].count (.array 0) + rest.count (.array 0) := by
        rw [← List.count_append, List.singleton_append]
      obtain ⟨last, hlast, hall, hfinal⟩ := ih hcmds.2 hrest hfits (by omega)
      refine ⟨last, ?_, hall, by omega⟩
      simp [executeAll, hafter, hlast, bind, Except.bind]

/-- A formula leaves at least one value. -/
theorem Program.exists_executeAll [Host] {sample : Sample} (hsample : sample.FitsWord) {program : Program}
    (hcmds : ∀ cmd ∈ program.cmds, cmd.FitsWord) :
    ∃ value left, executeAll sample program.cmds [] = .ok (value :: left) := by
  have hpos := program.height_pos
  obtain ⟨last, hlast, -, hlength⟩ := executeAll_fits hsample hcmds program.height_eq allFit_nil (Int.le_refl 0)
  rw [List.length_nil] at hlength
  obtain ⟨value, left, rfl⟩ := List.exists_cons_of_length_pos (show 0 < last.length by omega)
  exact ⟨value, left, hlast⟩

/-- A trace of commands that succeed pairs each with the stack after it. -/
theorem traceFrom_eq_ok [Host] {sample : Sample} {cmds : List Cmd} {stack last : Stack}
    (h : executeAll sample cmds stack = .ok last) :
    ∃ entries, traceFrom sample cmds stack = .ok entries ∧ entries.map Prod.fst = cmds ∧
      ∀ k after, (entries.map Prod.snd)[k]? = some after →
        executeAll sample (cmds.take (k + 1)) stack = .ok after := by
  induction cmds generalizing stack with
  | nil => exact ⟨[], rfl, rfl, by simp⟩
  | cons cmd rest ih =>
      rw [executeAll] at h
      cases hnext : execute sample cmd stack with
      | error e =>
          rw [hnext] at h
          cases h
      | ok next =>
          rw [hnext] at h
          obtain ⟨entries, hentries, hcmds, hafter⟩ := ih h
          refine ⟨(cmd, next) :: entries, ?_, by simp [hcmds], ?_⟩
          · simp [traceFrom, hnext, hentries, pure, Except.pure, bind, Except.bind]
          · intro k after hk
            rw [List.take_succ_cons, executeAll, hnext]
            cases k with
            | zero =>
                cases hk
                rfl
            | succ k => exact hafter k after hk

/-! ## Formulas -/

/-- The value of a formula is on top of the last stack, and what lies below is left in `scratch`. -/
theorem eval_of_executeAll [Host] {program : Program} {raw : RawSample} {sample : Sample}
    (hsample : Sample.ofData raw = .ok sample) {value : Value} {left : Stack}
    (h : executeAll sample program.cmds [] = .ok (value :: left)) (scratch : Stack) :
    eval scratch program raw = (.ok value, left) := by
  simp [eval, evalSample, hsample, h, bind, Except.bind]

/-- A trace of a formula starts on the empty stack. -/
theorem trace_of_traceFrom [Host] {program : Program} {raw : RawSample} {sample : Sample}
    (hsample : Sample.ofData raw = .ok sample) : trace program raw = traceFrom sample program.cmds [] := by
  rw [trace, hsample]
  rfl

/-- **A formula evaluates without an error.** On numbers and truth values, and with literals in the range
of words, both the value of a formula and its trace exist. Each stack of the trace has the height that
was checked and one value more for each array of no values so far, all integers are in the range of
words, and the value is taken from the last of these stacks. -/
theorem eval_trace_fits [Host] {cmds : List Cmd} {program : Program} (hcompile : Program.compile cmds = .ok program)
    (hcmds : ∀ cmd ∈ cmds, cmd.FitsWord) {raw : RawSample} (hraw : raw.Numeric) (scratch : Stack) :
    ∃ value left entries,
      eval scratch program raw = (.ok value, left) ∧ trace program raw = .ok entries ∧
      entries.map Prod.fst = cmds ∧
      (∀ k after, (entries.map Prod.snd)[k]? = some after →
        AllFit after ∧ ∃ depth, heightFrom 0 0 (cmds.take (k + 1)) = .ok depth ∧
          (after.length : Int) = depth + (cmds.take (k + 1)).count (.array 0)) ∧
      value.FitsWord ∧ AllFit left ∧
      (left.length : Int) = program.height - 1 + cmds.count (.array 0) := by
  have hprogram := Program.compile_eq_ok hcompile
  have hheight : heightFrom 0 0 cmds = .ok program.height := hprogram ▸ program.height_eq
  have hpos := program.height_pos
  obtain ⟨sample, hsample, hfits⟩ := Sample.exists_ofData hraw
  obtain ⟨last, hlast, hall, hlength⟩ := executeAll_fits hfits hcmds hheight allFit_nil (Int.le_refl 0)
  rw [List.length_nil] at hlength
  obtain ⟨value, left, rfl⟩ := List.exists_cons_of_length_pos (show 0 < last.length by omega)
  rw [List.length_cons] at hlength
  obtain ⟨entries, hentries, hfirst, hafter⟩ := traceFrom_eq_ok hlast
  refine ⟨value, left, entries, ?_, ?_, hfirst, ?_, (allFit_cons.mp hall).1, (allFit_cons.mp hall).2, by omega⟩
  · exact eval_of_executeAll hsample (hprogram ▸ hlast) scratch
  · rw [trace_of_traceFrom hsample, hprogram, hentries]
  · intro k after hk
    obtain ⟨depth, hdepth⟩ := exists_heightFrom_take hheight (k + 1)
    have htake : ∀ cmd ∈ cmds.take (k + 1), cmd.FitsWord := fun cmd hmem =>
      hcmds cmd (List.mem_of_mem_take hmem)
    obtain ⟨stack, hstack, hstackFits, hstackLength⟩ :=
      executeAll_fits hfits htake hdepth allFit_nil (Int.le_refl 0)
    -- the trace holds the stack that the first commands leave
    have hsame : stack = after := Except.ok.inj (hstack.symm.trans (hafter k after hk))
    subst hsame
    rw [List.length_nil] at hstackLength
    exact ⟨hstackFits, depth, hdepth, by omega⟩

/-- A formula with an array of no values, a shift and a double: `t 9223372036854775807 [0 << 0.5 +`. -/
def shifted : List Cmd :=
  [.var .frame, .int 9223372036854775807, .array 0, .intOp .shl, .float 0.5, .intOp .add]

/-- A sample with a truth value, a double and NaN among its data. -/
def mixed : RawSample :=
  ⟨.int (-1), .bool true, .float 0.5, .nan 0, .int 0, .int 0, .int 0⟩

open scoped Host in
theorem eval_trace_fits_shifted :
    ∃ program, Program.compile shifted = .ok program ∧ (∀ cmd ∈ shifted, cmd.FitsWord) ∧ mixed.Numeric ∧
      ∃ value left entries,
        eval [.int 7] program mixed = (.ok value, left) ∧ trace program mixed = .ok entries ∧
        entries.map Prod.fst = shifted ∧
        (∀ k after, (entries.map Prod.snd)[k]? = some after →
          AllFit after ∧ ∃ depth, heightFrom 0 0 (shifted.take (k + 1)) = .ok depth ∧
            (after.length : Int) = depth + (shifted.take (k + 1)).count (.array 0)) ∧
        value.FitsWord ∧ AllFit left ∧ left.length = 1 := by
  have hcompile : Program.compile shifted = .ok ⟨shifted, 1, rfl, by decide⟩ := rfl
  have hcmds : ∀ cmd ∈ shifted, cmd.FitsWord := by decide
  have hraw : mixed.Numeric := by decide
  obtain ⟨value, left, entries, heval, htrace, hfirst, hstacks, hvalue, hleft, hlength⟩ :=
    eval_trace_fits hcompile hcmds hraw [.int 7]
  have hcount : shifted.count (.array 0) = 1 := by decide
  rw [hcount] at hlength
  exact ⟨_, hcompile, hcmds, hraw, value, left, entries, heval, htrace, hfirst, hstacks, hvalue, hleft,
    Int.ofNat_inj.mp hlength⟩

end ProgramArt.Beat
