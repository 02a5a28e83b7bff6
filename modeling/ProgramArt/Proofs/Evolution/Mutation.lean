import ProgramArt.Evolution.Beat
import ProgramArt.Evolution.Tape
import ProgramArt.Proofs.Beat.Text
import ProgramArt.Proofs.Beat.Tree
import ProgramArt.Proofs.Draw.Lawful
import ProgramArt.Proofs.Tape.Matching

/-!
# Programs stay programs

A mutation replaces instructions and commands one by one, and what comes in their place keeps the program whole:
brackets are left alone (`ends_mutateTape`), and a command is replaced by one that takes and leaves as much on the
stack (`Replaces`). Therefore it fails only if the source runs dry or a command is met that belongs to no family
(`ends_mutateBeat`).
-/

namespace ProgramArt

namespace Evolution

/-! ## Draws -/

section

variable {σ : Type} [Draw.Source σ]

theorem ends_drawUnit (source : σ) :
    Ends drawUnit source (fun _ _ => True) (fun e _ => ∃ x, e = .exhausted x) :=
  Draw.ends_unit EvolutionError.exhausted source

theorem drawUnit_eq_ok {source rest : σ} {x : Float} :
    drawUnit source = (.ok x, rest) ↔ Draw.Source.unit source = (.ok x, rest) := by
  unfold drawUnit Draw.Draws.unit
  rcases hdraw : Draw.Source.unit source with ⟨e | y, source'⟩
  · constructor <;> intro h <;> cases h
  · constructor <;> intro h <;> cases h <;> rfl

variable [Draw.LawfulSource σ]

theorem ends_drawFrom {α : Type} [Inhabited α] {choices : List α} (hne : choices ≠ []) (source : σ) :
    Ends (drawFrom choices) source (fun a _ => a ∈ choices) (fun e _ => ∃ x, e = .exhausted x) :=
  Draw.ends_pick EvolutionError.exhausted hne source

theorem ends_drawBelow (source : σ) :
    Ends (drawBelow literalRange) source (fun n _ => n < literalRange) (fun e _ => ∃ x, e = .exhausted x) :=
  Draw.ends_below EvolutionError.exhausted (show 0 < literalRange by decide) source

end

/-! ## Tape programs -/

section

open Tape

/-- A bracket stays where it is, and nothing else becomes one. -/
def KeepsBracket (instr new : Instr) : Prop :=
  (instr.isBracket = true → new = instr) ∧ (instr.isBracket = false → new.isBracket = false)

theorem mem_mutableInstrs_iff {instr : Instr} : instr ∈ mutableInstrs ↔ instr.isBracket = false := by
  cases instr <;> decide

/-- An instruction that is no bracket does not change the depth. -/
theorem depthAfter?_cons_of_isBracket {instr : Instr} (h : instr.isBracket = false) (depth : Nat)
    (rest : List Instr) : depthAfter? depth (instr :: rest) = depthAfter? depth rest := by
  cases instr with
  | enter | leave => cases h
  | inc | dec | left | right | read | write => rfl

theorem depthAfter?_of_keepsBracket {instrs new : List Instr} (h : List.Forall₂ KeepsBracket instrs new)
    (depth : Nat) : depthAfter? depth new = depthAfter? depth instrs := by
  induction h generalizing depth with
  | nil => rfl
  | @cons instr new instrs news hkeeps _ ih =>
    cases hbracket : instr.isBracket with
    | false =>
      rw [depthAfter?_cons_of_isBracket hbracket, depthAfter?_cons_of_isBracket (hkeeps.2 hbracket), ih]
    | true =>
      rw [hkeeps.1 hbracket]
      cases instr with
      | enter => exact ih (depth + 1)
      | leave =>
        cases depth with
        | zero => rfl
        | succ depth => exact ih depth
      | _ => cases hbracket

variable {σ : Type} [Draw.Source σ] [Draw.LawfulSource σ]

omit [Draw.Source σ] [Draw.LawfulSource σ] in
/-- Balanced instructions are a program, and nothing is drawn for it. -/
theorem exists_tapeOf {instrs : List Instr} (h : isBalanced instrs = true) :
    ∃ program : Program, program.instrs.toList = instrs
      ∧ ∀ source : σ, tapeOf instrs source = (.ok program, source) := by
  obtain ⟨program, hprogram, hinstrs⟩ := Program.exists_ofInstrs h
  refine ⟨program, hinstrs, fun source => ?_⟩
  rw [tapeOf, hprogram]
  rfl

theorem ends_mutateInstr (chance : Float) (instr : Instr) (source : σ) :
    Ends (mutateInstr chance instr) source (fun new _ => KeepsBracket instr new)
      (fun e _ => ∃ x, e = .exhausted x) := by
  refine (ends_drawUnit source).bind ?_
  intro x source' _
  split
  · -- only an instruction that is no bracket is replaced
    rename_i hreplaced
    refine (ends_drawFrom (by decide) source').mono_done ?_
    intro new _ hnew
    refine ⟨?_, fun _ => mem_mutableInstrs_iff.mp hnew⟩
    intro hbracket
    rw [hreplaced.2] at hbracket
    cases hbracket
  · exact ends_pure ⟨fun _ => rfl, id⟩

/-- **A mutation of a tape program gives a tape program** with the same brackets, unless the source runs dry. -/
theorem ends_mutateTape (program : Program) (chance : Float) (source : σ) :
    Ends (mutateTape program chance) source
      (fun new _ => List.Forall₂ KeepsBracket program.instrs.toList new.instrs.toList)
      (fun e _ => ∃ x, e = .exhausted x) := by
  refine (ends_mapM (fun instr _ => ends_mutateInstr chance instr) source).bind ?_
  intro instrs source' hinstrs
  have hbalanced : isBalanced instrs = true := by
    rw [isBalanced, depthAfter?_of_keepsBracket hinstrs]
    exact program.isBalanced_instrs
  obtain ⟨new, rfl, hnew⟩ := exists_tapeOf (σ := σ) hbalanced
  constructor
  rw [hnew]
  exact hinstrs

end

end Evolution

/-! ## Commands in the place of others -/

/-- The commands that belong to no family: choices, arrays and remarks. -/
def Beat.Cmd.isStructural : Beat.Cmd → Bool
  | .choose | .array _ | .remark _ _ | .comment _ => true
  | _ => false

/-- The commands of the family of a command, by their indices: one of these may take its place. -/
def Beat.Cmd.family : Beat.Cmd → List Beat.Cmd
  | .var _ => Beat.Variable.all.map .var
  | .float _ => (List.range Evolution.literalRange).map fun (n : Nat) => .float (UInt64.ofNat n).toFloat
  | .hex _ => (List.range Evolution.literalRange).map fun (n : Nat) => .hex n
  | .int _ => (List.range Evolution.literalRange).map fun (n : Nat) => .int n
  | .intOp _ => Beat.IntOp.all.map .intOp
  | .trig _ => Beat.TrigOp.all.map .trig
  | .floatOp _ => Beat.FloatOp.all.map .floatOp
  | .compare _ => Beat.CompareOp.all.map .compare
  | .choose | .array _ | .remark _ _ | .comment _ => []

namespace Evolution

open Beat

/-- A command is left as it is, or one of its family takes its place. -/
def Kin (cmd new : Cmd) : Prop :=
  new = cmd ∨ new ∈ cmd.family

/-- A command in the place of another: it changes the height of the stack alike, it belongs to a family if the
other does and is the other one if that has none, and it can be written and read back if the other can. -/
structure Replaces (cmd new : Cmd) : Prop where
  effect : new.effect = cmd.effect
  structural : new.isStructural = cmd.isStructural
  kept : cmd.isStructural = true → new = cmd
  writable : cmd.Writable → new.Writable
  finite : cmd.isInfinite = false → new.isInfinite = false

theorem Replaces.refl (cmd : Cmd) : Replaces cmd cmd :=
  ⟨rfl, rfl, fun _ => rfl, id, id⟩

/-- The literals that are drawn are numbers. -/
theorem literal_finite {n : Nat} (h : n < literalRange) :
    (UInt64.ofNat n).toFloat.isNaN = false ∧ (UInt64.ofNat n).toFloat.isInf = false := by
  have hall : ∀ n : Fin 256, (UInt64.ofNat n.val).toFloat.isNaN = false
      ∧ (UInt64.ofNat n.val).toFloat.isInf = false := by decide +kernel
  exact hall ⟨n, h⟩

theorem literal_isWord {n : Nat} (h : n < literalRange) : Word64.IsWord n := by
  rw [Word64.isWord_iff]
  unfold literalRange at h
  omega

/-- One of the family of a command in its place. -/
theorem replaces_of_mem_family {cmd new : Cmd} (h : new ∈ cmd.family) : Replaces cmd new := by
  cases cmd with
  | var _ | intOp _ | trig _ | floatOp _ | compare _ =>
    obtain ⟨_, -, rfl⟩ := List.mem_map.mp h
    exact ⟨rfl, rfl, nofun, id, id⟩
  | float _ =>
    obtain ⟨n, hn, rfl⟩ := List.mem_map.mp h
    have hfinite := literal_finite (List.mem_range.mp hn)
    exact ⟨rfl, rfl, nofun, fun _ => hfinite.1, fun _ => hfinite.2⟩
  | hex _ | int _ =>
    obtain ⟨n, hn, rfl⟩ := List.mem_map.mp h
    have hword := literal_isWord (List.mem_range.mp hn)
    exact ⟨rfl, rfl, nofun, fun _ => hword, id⟩
  | choose | array _ | remark _ _ | comment _ => cases h

theorem Kin.replaces {cmd new : Cmd} (h : Kin cmd new) : Replaces cmd new := by
  rcases h with rfl | hmem
  · exact Replaces.refl new
  · exact replaces_of_mem_family hmem

variable {σ : Type} [Draw.Source σ]

/-- A command without a family is not replaced. -/
theorem replaceCmd_of_isStructural {cmd : Cmd} (h : cmd.isStructural = true) (source : σ) :
    replaceCmd cmd source = (.error (.fixed cmd), source) := by
  cases cmd with
  | choose | array _ | remark _ _ | comment _ => rfl
  | _ => cases h

variable [Draw.LawfulSource σ]

/-- A command of a family is replaced by one of the same family. -/
theorem ends_replaceCmd {cmd : Cmd} (h : cmd.isStructural = false) (source : σ) :
    Ends (replaceCmd cmd) source (fun new _ => new ∈ cmd.family) (fun e _ => ∃ x, e = .exhausted x) := by
  have hliteral {f : Nat → Cmd} {n : Nat} (hn : n < literalRange) : f n ∈ (List.range literalRange).map f :=
    List.mem_map_of_mem (List.mem_range.mpr hn)
  cases cmd with
  | var _ | intOp _ | trig _ | floatOp _ | compare _ =>
    exact (ends_drawFrom (by decide) source).bind fun _ _ hmem => ends_pure (List.mem_map_of_mem hmem)
  | float _ =>
    exact (ends_drawBelow source).bind fun _ _ hn =>
      ends_pure (hliteral (f := fun n => .float (UInt64.ofNat n).toFloat) hn)
  | hex _ => exact (ends_drawBelow source).bind fun _ _ hn => ends_pure (hliteral (f := fun n => .hex n) hn)
  | int _ => exact (ends_drawBelow source).bind fun _ _ hn => ends_pure (hliteral (f := fun n => .int n) hn)
  | choose | array _ | remark _ _ | comment _ => cases h

/-- Why a mutation of commands fails. -/
def Unmutated (cmds : List Cmd) (e : EvolutionError) : Prop :=
  (∃ x, e = .exhausted x) ∨ ∃ cmd ∈ cmds, cmd.isStructural = true ∧ e = .fixed cmd

theorem ends_mutateCmd (chance : Float) {cmd : Cmd} {cmds : List Cmd} (hcmd : cmd ∈ cmds) (source : σ) :
    Ends (mutateCmd chance cmd) source (fun new _ => Kin cmd new) (fun e _ => Unmutated cmds e) := by
  refine ((ends_drawUnit source).mono_failed fun _ _ he => Or.inl he).bind ?_
  intro x source' _
  split
  · cases hstructural : cmd.isStructural with
    | false => exact (ends_replaceCmd hstructural source').mono (fun _ _ => Or.inr) fun _ _ he => Or.inl he
    | true =>
      constructor
      rw [replaceCmd_of_isStructural hstructural]
      exact .inr ⟨cmd, hcmd, hstructural, rfl⟩
  · exact ends_pure (.inl rfl)

/-! ## Mutations -/

/-- Replacing commands does not change the height of the stack. -/
theorem heightFrom_of_replaces {cmds new : List Cmd} (h : List.Forall₂ Replaces cmds new) (index : Nat)
    (height : Int) {final : Int} (hfinal : heightFrom index height cmds = .ok final) :
    heightFrom index height new = .ok final := by
  induction h generalizing index height with
  | nil => exact hfinal
  | cons hcmd _ ih =>
    rw [heightFrom] at hfinal ⊢
    rw [hcmd.effect]
    split at hfinal
    · exact ih _ _ hfinal
    · split at hfinal
      · cases hfinal
      · rename_i hleaves
        rw [if_neg hleaves]
        exact ih _ _ hfinal

omit [Draw.Source σ] [Draw.LawfulSource σ] in
/-- What a command hands on to the one in its place holds of all commands. -/
theorem forall_of_replaces {p : Cmd → Prop} (hp : ∀ {cmd new}, Replaces cmd new → p cmd → p new)
    {cmds new : List Cmd} (h : List.Forall₂ Replaces cmds new) (hcmds : ∀ cmd ∈ cmds, p cmd) : ∀ cmd ∈ new, p cmd := by
  induction h with
  | nil => exact hcmds
  | cons hcmd _ ih =>
    obtain ⟨hfirst, hrest⟩ := List.forall_mem_cons.mp hcmds
    exact List.forall_mem_cons.mpr ⟨hp hcmd hfirst, ih hrest⟩

omit [Draw.Source σ] [Draw.LawfulSource σ] in
/-- Commands that pass the check are a formula, and nothing is drawn for it. -/
theorem exists_beatOf (generated : Bool) {cmds : List Cmd} {height : Int} (hheight : heightFrom 0 0 cmds = .ok height)
    (hne : height ≠ 0) :
    ∃ program : Program, program.cmds = cmds ∧ ∀ source : σ, beatOf generated cmds source = (.ok program, source) := by
  obtain ⟨program, hprogram⟩ := Program.exists_compile hheight hne
  refine ⟨program, Program.compile_eq_ok hprogram, fun source => ?_⟩
  rw [beatOf, hprogram]
  rfl

/-- **A mutation gives a formula** with commands of the same families, unless the source runs dry or a command without a
family is met. -/
theorem ends_mutateBeat (program : Program) (chance : Float) (source : σ) :
    Ends (mutateBeat program chance) source (fun new _ => List.Forall₂ Kin program.cmds new.cmds)
      (fun e _ => Unmutated program.cmds e) := by
  refine (ends_mapM (fun cmd hcmd => ends_mutateCmd chance hcmd) source).bind ?_
  intro cmds source' hcmds
  have hheight := heightFrom_of_replaces (hcmds.imp fun _ _ => Kin.replaces) 0 0 program.height_eq
  obtain ⟨new, rfl, hnew⟩ := exists_beatOf (σ := σ) false hheight program.height_ne
  constructor
  rw [hnew]
  exact hcmds

end Evolution

end ProgramArt
