import ProgramArt.Host.Standard
import ProgramArt.Proofs.Beat.Heights

/-!
# Remarks are inert

Comments and remarks are commands without an effect: the check steps over them (`heightFrom_withoutRemarks`) and so
does the evaluation (`eval_withoutRemarks`). Taking them out of a list of commands therefore changes neither whether
it is a formula nor what it computes. A list that is refused is refused for the same command, whose number only falls
by the remarks before it. What remarks do is kept apart, in `Program.metadata`: each gives a value to a key, and the
last value is the one that counts.
-/

namespace ProgramArt.Beat

/-! ## Lists without their remarks -/

theorem withoutRemarks_append (first second : List Cmd) :
    withoutRemarks (first ++ second) = withoutRemarks first ++ withoutRemarks second :=
  List.filter_append _ _

theorem withoutRemarks_cons_of_isRemark {cmd : Cmd} (h : cmd.isRemark = true) (rest : List Cmd) :
    withoutRemarks (cmd :: rest) = withoutRemarks rest :=
  List.filter_cons_of_neg (by simp [h])

theorem withoutRemarks_cons_of_effect {cmd : Cmd} {change : Int} (h : cmd.effect = some change) (rest : List Cmd) :
    withoutRemarks (cmd :: rest) = cmd :: withoutRemarks rest := by
  refine List.filter_cons_of_pos ?_
  rw [isRemark_eq_isNone, h]
  rfl

/-- What is left of a list is shorter by its remarks. -/
theorem length_withoutRemarks (cmds : List Cmd) :
    (withoutRemarks cmds).length = cmds.length - cmds.countP Cmd.isRemark := by
  induction cmds with
  | nil => rfl
  | cons cmd rest ih =>
    have hle := List.countP_le_length (p := Cmd.isRemark) (l := rest)
    by_cases hremark : cmd.isRemark = true
    · rw [withoutRemarks_cons_of_isRemark hremark, List.countP_cons_of_pos hremark, List.length_cons, ih]
      omega
    · rw [withoutRemarks, List.filter_cons_of_pos (by simp [hremark]), ← withoutRemarks, List.length_cons,
        List.countP_cons_of_neg hremark, List.length_cons, ih]
      omega

/-- The number of remarks among the first commands. -/
def remarksBefore (cmds : List Cmd) (index : Nat) : Nat :=
  (cmds.take index).countP Cmd.isRemark

/-! ## The check -/

/-- Remarks do not change the height, at whatever number the commands start. -/
theorem heightFrom_withoutRemarks {cmds : List Cmd} (index place : Nat) {height final : Int} :
    heightFrom place height (withoutRemarks cmds) = .ok final ↔ heightFrom index height cmds = .ok final := by
  induction cmds generalizing index place height with
  | nil => rfl
  | cons cmd rest ih =>
    cases heffect : cmd.effect with
    | none =>
      rw [withoutRemarks_cons_of_isRemark (by rw [isRemark_eq_isNone, heffect]; rfl), heightFrom, heffect]
      exact ih (index + 1) place
    | some change =>
      rw [withoutRemarks_cons_of_effect heffect, heightFrom, heightFrom, heffect]
      dsimp only
      split
      · constructor <;> intro h <;> cases h
      · exact ih (index + 1) (place + 1)

/-- **Where a list of commands is refused:** those before pass the check, and then there is too little. -/
theorem heightFrom_eq_error_iff_exists {cmds : List Cmd} {index : Nat} {height : Int} {shortage : Shortage} :
    heightFrom index height cmds = .error shortage ↔
      ∃ before cmd after change, cmds = before ++ cmd :: after ∧ shortage.index = index + before.length ∧
        heightFrom index height before = .ok shortage.height ∧ cmd.effect = some change ∧
        shortage.height + change ≤ 0 := by
  constructor
  · intro h
    induction cmds generalizing index height with
    | nil => cases h
    | cons cmd rest ih =>
      rw [heightFrom] at h
      cases heffect : cmd.effect with
      -- a remark only moves the place on
      | none =>
        rw [heffect] at h
        obtain ⟨before, other, after, change, rfl, hindex, hbefore, hother, hshort⟩ := ih h
        refine ⟨cmd :: before, other, after, change, rfl, ?_, ?_, hother, hshort⟩
        · rw [hindex, List.length_cons]
          omega
        · rw [heightFrom, heffect]
          exact hbefore
      | some change =>
        rw [heffect] at h
        dsimp only at h
        split at h
        · rename_i hshort
          cases h
          exact ⟨[], cmd, rest, change, rfl, rfl, rfl, heffect, hshort⟩
        · rename_i hroom
          obtain ⟨before, other, after, change', rfl, hindex, hbefore, hother, hshort⟩ := ih h
          refine ⟨cmd :: before, other, after, change', rfl, ?_, ?_, hother, hshort⟩
          · rw [hindex, List.length_cons]
            omega
          · rw [heightFrom, heffect]
            dsimp only
            rw [if_neg hroom]
            exact hbefore
  · rintro ⟨before, cmd, after, change, rfl, hindex, hbefore, heffect, hshort⟩
    rw [heightFrom_append, hbefore]
    change heightFrom (index + before.length) shortage.height (cmd :: after) = _
    rw [heightFrom, heffect]
    dsimp only
    rw [if_pos hshort, ← hindex]

/-- A list that is refused is refused for the same command at the same height without its remarks. -/
theorem heightFrom_eq_error_withoutRemarks {cmds : List Cmd} {index : Nat} {height : Int}
    (h : heightFrom 0 0 cmds = .error ⟨index, height⟩) :
    heightFrom 0 0 (withoutRemarks cmds) = .error ⟨index - remarksBefore cmds index, height⟩ ∧
      (withoutRemarks cmds)[index - remarksBefore cmds index]? = cmds[index]? := by
  obtain ⟨before, cmd, after, change, rfl, hindex, hbefore, heffect, hshort⟩ := heightFrom_eq_error_iff_exists.mp h
  obtain rfl : index = before.length := by simpa using hindex
  have hplace : before.length - remarksBefore (before ++ cmd :: after) before.length
      = (withoutRemarks before).length := by
    rw [remarksBefore, List.take_left, length_withoutRemarks]
  rw [hplace, withoutRemarks_append, withoutRemarks_cons_of_effect heffect]
  constructor
  · refine heightFrom_eq_error_iff_exists.mpr ⟨withoutRemarks before, cmd, withoutRemarks after, change, rfl, ?_, ?_,
      heffect, hshort⟩
    · rw [Nat.zero_add]
    · exact (heightFrom_withoutRemarks 0 0).mpr hbefore
  · rw [List.getElem?_append_right (Nat.le_refl _), List.getElem?_append_right (Nat.le_refl _), Nat.sub_self,
      Nat.sub_self]
    rfl

/-! ## Formulas -/

theorem Program.exists_compile_withoutRemarks_iff {cmds : List Cmd} :
    (∃ program, compile cmds = .ok program) ↔ ∃ program, compile (withoutRemarks cmds) = .ok program := by
  have hiff : ∀ cmds, (∃ program, compile cmds = .ok program) ↔
      ∃ height, heightFrom 0 0 cmds = .ok height ∧ height ≠ 0 := by
    intro cmds
    constructor
    · rintro ⟨program, hprogram⟩
      obtain rfl := compile_eq_ok hprogram
      exact ⟨program.height, program.height_eq, program.height_ne⟩
    · rintro ⟨height, hheight, hne⟩
      exact exists_compile hheight hne
  rw [hiff, hiff]
  simp only [heightFrom_withoutRemarks 0 0]

theorem Program.compile_empty_withoutRemarks_iff {cmds : List Cmd} :
    compile cmds = .error (.empty cmds) ↔
      compile (withoutRemarks cmds) = .error (.empty (withoutRemarks cmds)) := by
  rw [compile_eq_empty_iff, compile_eq_empty_iff]
  simp only [withoutRemarks, List.mem_filter]
  constructor
  · intro h cmd hcmd
    exact h cmd hcmd.1
  · intro h cmd hcmd
    by_contra hremark
    exact hremark (h cmd ⟨hcmd, by simp [hremark]⟩)

/-- What a run leaves does not depend on remarks either, also if a command fails. -/
theorem stackAfter_withoutRemarks [Host] (sample : Sample) (cmds : List Cmd) (stack : Stack) :
    stackAfter sample (withoutRemarks cmds) stack = stackAfter sample cmds stack := by
  induction cmds generalizing stack with
  | nil => rfl
  | cons cmd rest ih =>
    cases heffect : cmd.effect with
    | some change =>
      rw [withoutRemarks_cons_of_effect heffect, stackAfter, stackAfter]
      split
      · exact ih _
      · rfl
    | none =>
      have hremark : cmd.isRemark = true := by rw [isRemark_eq_isNone, heffect]; rfl
      rw [withoutRemarks_cons_of_isRemark hremark, ih, stackAfter, execute_of_isRemark hremark]

/-- **Formulas compute the same without their remarks**, and leave the same. -/
theorem eval_withoutRemarks [Host] {program bare : Program} (h : bare.cmds = withoutRemarks program.cmds)
    (scratch : Stack) (raw : RawSample) : eval scratch bare raw = eval scratch program raw := by
  have hsample : ∀ sample, evalSample bare sample = evalSample program sample := by
    intro sample
    rw [evalSample, evalSample, h, executeAll_withoutRemarks]
  unfold eval
  simp only [hsample, h, stackAfter_withoutRemarks]

/-! ## Remarks by key -/

/-- The value that a command gives to a key. -/
def Cmd.valueFor? (key : Text.Codes) : Cmd → Option Text.Codes
  | remark other value => if other = key then some value else none
  | _ => none

theorem Cmd.valueFor?_eq_some_iff {key value : Text.Codes} {cmd : Cmd} :
    cmd.valueFor? key = some value ↔ cmd = .remark key value := by
  cases cmd with
  | remark other given =>
    by_cases hkey : other = key
    · simp [valueFor?, hkey]
    · simp [valueFor?, hkey]
  | _ => simp [valueFor?]

theorem Cmd.valueFor?_eq_none_iff {key : Text.Codes} {cmd : Cmd} :
    cmd.valueFor? key = none ↔ ∀ value, cmd ≠ .remark key value := by
  rw [Option.eq_none_iff_forall_ne_some]
  exact forall_congr' fun value => not_congr valueFor?_eq_some_iff

theorem Metadata.lookup_add (metadata : Metadata) (key value other : Text.Codes) :
    ((metadata.add key value).lookup other).getD []
      = (metadata.lookup other).getD [] ++ if key = other then [value] else [] := by
  induction metadata with
  | nil =>
    by_cases hkey : key = other
    · simp [add, hkey]
    · simp [add, hkey, List.lookup_cons, beq_eq_false_iff_ne.mpr (Ne.symm hkey)]
  | cons entry rest ih =>
    obtain ⟨first, values⟩ := entry
    rw [add]
    by_cases hfirst : first = key
    · subst hfirst
      rw [if_pos BEq.rfl, List.lookup_cons, List.lookup_cons]
      by_cases hother : other = first
      · simp [hother]
      · simp [beq_eq_false_iff_ne.mpr hother, Ne.symm hother]
    · rw [if_neg (by simpa using hfirst), List.lookup_cons, List.lookup_cons]
      by_cases hother : other = first
      · subst hother
        simp [Ne.symm hfirst]
      · rw [beq_eq_false_iff_ne.mpr hother]
        exact ih

theorem Metadata.lookup_note (metadata : Metadata) (cmd : Cmd) (key : Text.Codes) :
    ((metadata.note cmd).lookup key).getD [] = (metadata.lookup key).getD [] ++ (cmd.valueFor? key).toList := by
  cases cmd with
  | remark other value =>
    rw [note, lookup_add, Cmd.valueFor?]
    split <;> rfl
  | _ => exact (List.append_nil _).symm

/-- Each command gives at most one more value to a key. -/
theorem Metadata.lookup_foldl_note (metadata : Metadata) (cmds : List Cmd) (key : Text.Codes) :
    ((cmds.foldl note metadata).lookup key).getD []
      = (metadata.lookup key).getD [] ++ cmds.filterMap (Cmd.valueFor? key) := by
  induction cmds generalizing metadata with
  | nil => exact (List.append_nil _).symm
  | cons cmd rest ih =>
    rw [List.foldl_cons, ih, lookup_note, List.append_assoc]
    cases hvalue : cmd.valueFor? key with
    | none => rw [List.filterMap_cons_none hvalue]; rfl
    | some value => rw [List.filterMap_cons_some hvalue]; rfl

/-- **The values of a key** are those that the commands give to it, in their order. -/
theorem Program.remarks_eq (program : Program) (key : Text.Codes) :
    program.remarks key = program.cmds.filterMap (Cmd.valueFor? key) :=
  Metadata.lookup_foldl_note [] program.cmds key

theorem Program.remark?_eq_findSome? (program : Program) (key : Text.Codes) :
    program.remark? key = program.cmds.reverse.findSome? (Cmd.valueFor? key) := by
  rw [remark?, remarks_eq, List.getLast?_eq_head?_reverse, ← List.filterMap_reverse, List.head?_filterMap]

/-- A key has no value if no remark gives one to it. -/
theorem Program.remark?_eq_none_iff {program : Program} {key : Text.Codes} :
    program.remark? key = none ↔ ∀ value, .remark key value ∉ program.cmds := by
  rw [remark?_eq_findSome?, List.findSome?_eq_none_iff]
  simp only [List.mem_reverse, Cmd.valueFor?_eq_none_iff]
  exact ⟨fun h value hmem => h _ hmem value rfl, fun h cmd hmem value heq => h value (heq ▸ hmem)⟩

/-- The value of a key is the one that no later remark replaces. -/
theorem Program.remark?_eq_some_iff {program : Program} {key value : Text.Codes} :
    program.remark? key = some value ↔ ∃ before after, program.cmds = before ++ .remark key value :: after ∧
      ∀ later, .remark key later ∉ after := by
  rw [remark?_eq_findSome?, List.findSome?_eq_some_iff]
  constructor
  · rintro ⟨after, cmd, before, hsplit, hcmd, hafter⟩
    obtain rfl := Cmd.valueFor?_eq_some_iff.mp hcmd
    refine ⟨before.reverse, after.reverse, ?_, ?_⟩
    · rw [← List.reverse_inj, hsplit]
      simp
    · intro later hmem
      exact Cmd.valueFor?_eq_none_iff.mp (hafter _ (List.mem_reverse.mp hmem)) later rfl
  · rintro ⟨before, after, hsplit, hafter⟩
    refine ⟨after.reverse, .remark key value, before.reverse, ?_, Cmd.valueFor?_eq_some_iff.mpr rfl, ?_⟩
    · rw [hsplit]
      simp
    · intro cmd hmem
      refine Cmd.valueFor?_eq_none_iff.mpr ?_
      rintro later rfl
      exact hafter later (List.mem_reverse.mp hmem)

/-! ## Remarks -/

/-- **Remarks are inert.** A list of commands is a formula exactly if it is one without its remarks, and it is empty in
both cases or in none. If a command finds too little, the same command does without the remarks, at the same height and
at a number that is smaller by the remarks before it; and the other way round. Both formulas give the same value and
leave the same on every sample. The values of a key are those that the remarks give to it, in their order, and its value
is the last of them. -/
theorem remarks_inert [Host] (cmds : List Cmd) :
    ((∃ program, Program.compile cmds = .ok program) ↔
      ∃ program, Program.compile (withoutRemarks cmds) = .ok program) ∧
    (Program.compile cmds = .error (.empty cmds) ↔
      Program.compile (withoutRemarks cmds) = .error (.empty (withoutRemarks cmds))) ∧
    (∀ index height, Program.compile cmds = .error (.underflow cmds ⟨index, height⟩) →
      Program.compile (withoutRemarks cmds)
        = .error (.underflow (withoutRemarks cmds) ⟨index - remarksBefore cmds index, height⟩) ∧
      (withoutRemarks cmds)[index - remarksBefore cmds index]? = cmds[index]?) ∧
    (∀ place height,
      Program.compile (withoutRemarks cmds) = .error (.underflow (withoutRemarks cmds) ⟨place, height⟩) →
      ∃ index, Program.compile cmds = .error (.underflow cmds ⟨index, height⟩) ∧
        place = index - remarksBefore cmds index) ∧
    (∀ program bare, Program.compile cmds = .ok program → Program.compile (withoutRemarks cmds) = .ok bare →
      ∀ scratch raw, eval scratch program raw = eval scratch bare raw) ∧
    ∀ program, Program.compile cmds = .ok program → ∀ key,
      program.remarks key = cmds.filterMap (Cmd.valueFor? key) ∧
      program.remark? key = (program.remarks key).getLast? ∧
      (program.remark? key = none ↔ ∀ value, .remark key value ∉ cmds) ∧
      ∀ value, program.remark? key = some value ↔ ∃ before after, cmds = before ++ .remark key value :: after ∧
        ∀ later, .remark key later ∉ after := by
  refine ⟨Program.exists_compile_withoutRemarks_iff, Program.compile_empty_withoutRemarks_iff, ?_, ?_, ?_, ?_⟩
  · intro index height h
    rw [Program.compile_eq_underflow_iff] at h ⊢
    exact heightFrom_eq_error_withoutRemarks h
  · intro place height h
    -- a list that is not short with its remarks is not short without them
    obtain ⟨⟨index, found⟩, herror, hcompile⟩ | ⟨hzero, -⟩ | ⟨program, hheight, -⟩ := Program.compile_cases cmds
    · have hbare := (heightFrom_eq_error_withoutRemarks herror).1
      rw [Program.compile_eq_underflow_iff, hbare] at h
      cases h
      exact ⟨index, hcompile, rfl⟩
    · rw [Program.compile_eq_underflow_iff, (heightFrom_withoutRemarks 0 0).mpr hzero] at h
      cases h
    · rw [Program.compile_eq_underflow_iff, (heightFrom_withoutRemarks 0 0).mpr hheight] at h
      cases h
  · intro program bare hprogram hbare scratch raw
    have hcmds := Program.compile_eq_ok hbare
    rw [← Program.compile_eq_ok hprogram] at hcmds
    exact (eval_withoutRemarks hcmds scratch raw).symm
  · intro program hprogram key
    obtain rfl := Program.compile_eq_ok hprogram
    exact ⟨program.remarks_eq key, rfl, Program.remark?_eq_none_iff, fun value => Program.remark?_eq_some_iff⟩

/-- Too little behind a remark and a comment: `!k:1 t #n +`. -/
def noted : List Cmd :=
  [.remark [107] [49], .var .frame, .comment [110], .intOp .add]

open scoped Host in
theorem remarks_inert_noted :
    Program.compile noted = .error (.underflow noted ⟨3, 1⟩) ∧
      withoutRemarks noted = [.var .frame, .intOp .add] ∧
      Program.compile (withoutRemarks noted) = .error (.underflow (withoutRemarks noted) ⟨1, 1⟩) := by
  have hcompile : Program.compile noted = .error (.underflow noted ⟨3, 1⟩) := rfl
  obtain ⟨-, -, hunderflow, -⟩ := remarks_inert noted
  exact ⟨hcompile, rfl, (hunderflow 3 1 hcompile).1⟩

end ProgramArt.Beat
