import Mathlib.Logic.Relation
import ProgramArt.Host.Standard
import ProgramArt.Proofs.Evolution.Ledger

/-!
# Families of commands

A mutation of a formula replaces commands by others of their families. It is refused as soon as it `Selects` a command
without a family (`mutateBeat_eq_fixed`), and otherwise its ledger tells the new formula (`mutateBeat_of_ledger`).
Commands of one family change the height of the stack alike (`effects_of_kin`), and none of them is a remark
(`metadata_of_kin`). So the new formula needs no other stack than the old one and says the same in its remarks. A
family never changes, however many mutations follow each other (`kin_of_mutants`).
-/

namespace ProgramArt.Evolution

open Beat Draw

/-! ## Kin -/

theorem family_eq_nil_iff {cmd : Cmd} : cmd.family = [] ↔ cmd.isStructural = true := by
  cases cmd with
  | choose | array _ | remark _ _ | comment _ => exact ⟨fun _ => rfl, fun _ => rfl⟩
  | _ => exact ⟨nofun, nofun⟩

/-- The commands of a family have one family. -/
theorem family_eq_of_mem {cmd new : Cmd} (h : new ∈ cmd.family) : new.family = cmd.family := by
  cases cmd with
  | choose | array _ | remark _ _ | comment _ => cases h
  | _ =>
    obtain ⟨_, -, rfl⟩ := List.mem_map.mp h
    rfl

theorem Kin.refl (cmd : Cmd) : Kin cmd cmd :=
  .inl rfl

theorem Kin.family_eq {cmd new : Cmd} (h : Kin cmd new) : new.family = cmd.family := by
  rcases h with rfl | hmem
  · rfl
  · exact family_eq_of_mem hmem

theorem Kin.trans {a b c : Cmd} (hab : Kin a b) (hbc : Kin b c) : Kin a c := by
  rcases hbc with rfl | hmem
  · exact hab
  · rw [hab.family_eq] at hmem
    exact .inr hmem

theorem forall₂_kin_trans {a b c : List Cmd} (hab : List.Forall₂ Kin a b) (hbc : List.Forall₂ Kin b c) :
    List.Forall₂ Kin a c := by
  induction hab generalizing c with
  | nil => exact hbc
  | cons hkin _ ih =>
    cases hbc with
    | cons hkin' hbc => exact .cons (hkin.trans hkin') (ih hbc)

theorem effects_of_kin {cmds news : List Cmd} (h : List.Forall₂ Kin cmds news) :
    news.map Cmd.effect = cmds.map Cmd.effect := by
  induction h with
  | nil => rfl
  | cons hkin _ ih => rw [List.map_cons, List.map_cons, hkin.replaces.effect, ih]

/-- A command of a family is no remark, and a remark has no family, so remarks stay as they are. -/
theorem Kin.note_eq {cmd new : Cmd} (h : Kin cmd new) (metadata : Metadata) :
    metadata.note new = metadata.note cmd := by
  rcases h with rfl | hmem
  · rfl
  · cases cmd with
    | choose | array _ | remark _ _ | comment _ => cases hmem
    | _ =>
      obtain ⟨_, -, rfl⟩ := List.mem_map.mp hmem
      rfl

theorem metadata_of_kin {cmds news : List Cmd} (h : List.Forall₂ Kin cmds news) (metadata : Metadata) :
    news.foldl Metadata.note metadata = cmds.foldl Metadata.note metadata := by
  induction h generalizing metadata with
  | nil => rfl
  | cons hkin _ ih => rw [List.foldl_cons, List.foldl_cons, hkin.note_eq, ih]

/-- Programs with the same commands are the same: the height is counted from them. -/
theorem eq_of_cmds_eq {p q : Program} (h : p.cmds = q.cmds) : p = q := by
  have hp := p.compile_cmds
  rw [h, q.compile_cmds] at hp
  exact (Except.ok.inj hp).symm

/-! ## Replacements by their indices -/

section

variable {σ : Type} [Draw.Source σ] {source rest : σ} {n : Nat}

theorem drawFrom_map {α : Type} [Inhabited α] {list : List α} {f : α → Cmd} (cmd : Cmd) (hlt : n < (list.map f).length)
    (h : Source.below (list.map f).length source = (.ok n, rest)) :
    (do return f (← drawFrom list) : Evolving σ Cmd) source = (.ok ((list.map f).getD n cmd), rest) := by
  rw [List.getD_eq_getElem _ _ hlt, List.getElem_map]
  rw [List.length_map] at hlt h
  refine bind_eq_ok.mpr ⟨list[n], rest, ?_, rfl⟩
  rw [drawFrom_of_below h, List.getD_eq_getElem _ _ hlt]

theorem drawBelow_map {f : Nat → Cmd} (cmd : Cmd) (hlt : n < ((List.range literalRange).map f).length)
    (h : Source.below ((List.range literalRange).map f).length source = (.ok n, rest)) :
    (do return f (← drawBelow literalRange) : Evolving σ Cmd) source
      = (.ok (((List.range literalRange).map f).getD n cmd), rest) := by
  rw [List.getD_eq_getElem _ _ hlt, List.getElem_map, List.getElem_range]
  rw [List.length_map, List.length_range] at h
  refine bind_eq_ok.mpr ⟨n, rest, ?_, rfl⟩
  show Draws.below _ _ source = _
  rw [Draws.below, h]

theorem drawFrom_of_dry {α : Type} [Inhabited α] {list : List α} {dry : Exhausted}
    (h : Source.below list.length source = (.error dry, rest)) :
    drawFrom list source = (.error (.exhausted dry), rest) := by
  refine bind_eq_error.mpr (.inl ?_)
  rw [Draws.below, h]

/-- A command is not replaced if the source runs dry. -/
theorem replaceCmd_of_dry {cmd : Cmd} (hfamily : cmd.family ≠ []) {dry : Exhausted}
    (h : Source.below cmd.family.length source = (.error dry, rest)) :
    replaceCmd cmd source = (.error (.exhausted dry), rest) := by
  cases cmd with
  | var _ | intOp _ | trig _ | floatOp _ | compare _ =>
    rw [Cmd.family, List.length_map] at h
    exact bind_eq_error.mpr (.inl (drawFrom_of_dry h))
  | float _ | hex _ | int _ =>
    rw [Cmd.family, List.length_map, List.length_range] at h
    refine bind_eq_error.mpr (.inl ?_)
    show Draws.below _ _ source = _
    rw [Draws.below, h]
  | choose | array _ | remark _ _ | comment _ => exact absurd rfl hfamily

/-- A command is replaced by the one of its family that the index tells. -/
theorem replaceCmd_of_below {cmd : Cmd} (hlt : n < cmd.family.length)
    (h : Source.below cmd.family.length source = (.ok n, rest)) :
    replaceCmd cmd source = (.ok (cmd.family.getD n cmd), rest) := by
  cases cmd with
  | var _ | intOp _ | trig _ | floatOp _ | compare _ => exact drawFrom_map _ hlt h
  | float _ | hex _ | int _ => exact drawBelow_map _ hlt h
  | choose | array _ | remark _ _ | comment _ => exact absurd hlt (Nat.not_lt_zero n)

end

/-! ## Turns of commands -/

/-- A turn that is refused: the command is selected, but it has no family. -/
def Turn.refused (chance : Float) (turn : Turn Cmd) : Bool :=
  decide (turn.number < chance) && turn.old.isStructural

variable {σ : Type} [Draw.Source σ] {chance : Float}

/-- A turn that is not refused leads to what becomes of the command. -/
theorem mutateCmd_of_fair {turn : Turn Cmd} {source rest : σ} (hfair : turn.Fair chance Cmd.family)
    (hpassed : ¬ turn.refused chance = true) (hdraws : HandsOut source (turn.draws Cmd.family) rest) :
    mutateCmd chance turn.old source = (.ok (turn.new Cmd.family), rest) := by
  obtain ⟨old, number, index⟩ := turn
  cases hdraws with
  | consUnit hunit hindex =>
    refine bind_eq_ok.mpr ⟨number, _, drawUnit_eq_ok.mpr hunit, ?_⟩
    cases index with
    | none =>
      cases hindex
      -- a command that is selected and yet not replaced has no family, and then the turn is refused
      have hkept : ¬ number < chance := by
        intro hselected
        by_cases hstructural : old.isStructural = true
        · exact hpassed (Bool.and_eq_true_iff.mpr ⟨decide_eq_true hselected, hstructural⟩)
        · exact nomatch hfair.drawn.mpr ⟨hselected, fun hnil => hstructural (family_eq_nil_iff.mp hnil)⟩
      rw [if_neg hkept]
      rfl
    | some n =>
      rw [if_pos (hfair.drawn.mp rfl).1]
      cases hindex with
      | consBelow hbelow hnil =>
        cases hnil
        exact replaceCmd_of_below (hfair.within n rfl) hbelow

theorem mutateCmd_of_refused {turn : Turn Cmd} {source rest : σ} (hfair : turn.Fair chance Cmd.family)
    (hrefused : turn.refused chance = true) (hdraws : HandsOut source (turn.draws Cmd.family) rest) :
    mutateCmd chance turn.old source = (.error (.fixed turn.old), rest) := by
  obtain ⟨hselected, hstructural⟩ := Bool.and_eq_true_iff.mp hrefused
  -- there is nothing to choose from, so the number is all that is drawn
  have hindex : turn.index = none := hfair.index_eq_none fun h => h.2 (family_eq_nil_iff.mpr hstructural)
  obtain ⟨old, number, index⟩ := turn
  subst hindex
  cases hdraws with
  | consUnit hunit hnil =>
    cases hnil
    refine bind_eq_error.mpr (.inr ⟨number, rest, drawUnit_eq_ok.mpr hunit, ?_⟩)
    rw [if_pos (of_decide_eq_true hselected)]
    exact replaceCmd_of_isStructural hstructural rest

theorem mutateCmd_of_cutShort {cmd : Cmd} {source : σ} (h : CutShort chance Cmd.family cmd source) :
    ∃ dry rest, mutateCmd chance cmd source = (.error (.exhausted dry), rest) := by
  cases h with
  | @number dry rest h =>
    refine ⟨dry, rest, bind_eq_error.mpr (.inl ?_)⟩
    rw [drawUnit, Draws.unit, h]
  | @index x next rest dry h hselected hchoices hdry =>
    refine ⟨dry, rest, bind_eq_error.mpr (.inr ⟨x, next, drawUnit_eq_ok.mpr h, ?_⟩)⟩
    rw [if_pos hselected, replaceCmd_of_dry hchoices hdry]

/-! ## Mutations -/

/-- A command without a family is selected in a mutation: its turn is the first one that is refused in the ledger of the
commands up to it. -/
def Selects (chance : Float) (cmds : List Cmd) (source : σ) (cmd : Cmd) : Prop :=
  ∃ before after turns turn rest, cmds = before ++ after ∧ turn.old = cmd
    ∧ Ledger chance Cmd.family before source (turns ++ [turn]) rest
    ∧ (∀ earlier ∈ turns, ¬ earlier.refused chance = true) ∧ turn.refused chance = true

section

variable {program : Program} {source rest : σ} {turns : List (Turn Cmd)}

/-- **The ledger tells the mutation.** If no turn is refused, what becomes of the commands is a formula. -/
theorem mutateBeat_of_ledger (h : Ledger chance Cmd.family program.cmds source turns rest)
    (hpassed : ∀ turn ∈ turns, ¬ turn.refused chance = true) :
    ∃ new : Program, mutateBeat program chance source = (.ok new, rest)
      ∧ new.cmds = turns.map (Turn.new Cmd.family) ∧ List.Forall₂ Kin program.cmds new.cmds := by
  have hkin : List.Forall₂ Kin program.cmds (turns.map (Turn.new Cmd.family)) := by
    rw [← h.items, List.forall₂_map_left_iff, List.forall₂_map_right_iff, List.forall₂_same]
    intro turn hturn
    exact (h.fair turn hturn).new_eq_or_mem
  have hheight := heightFrom_of_replaces (hkin.imp fun _ _ => Kin.replaces) 0 0 program.height_eq
  obtain ⟨new, hcmds, hnew⟩ := exists_beatOf (σ := σ) false hheight program.height_ne
  refine ⟨new, bind_eq_ok.mpr ⟨_, rest, h.mapM_eq_ok mutateCmd_of_fair hpassed, hnew rest⟩, hcmds, ?_⟩
  rw [hcmds]
  exact hkin

/-- A mutation that selects a command without a family is refused. -/
theorem Selects.mapM_eq_error {cmds : List Cmd} {cmd : Cmd} (h : Selects chance cmds source cmd) :
    ∃ left, cmds.mapM (mutateCmd chance) source = (.error (.fixed cmd), left) := by
  obtain ⟨before, after, turns, turn, rest, rfl, rfl, hledger, hpassed, hrefused⟩ := h
  obtain ⟨left, hleft⟩ := hledger.mapM_eq_error mutateCmd_of_fair mutateCmd_of_refused hpassed hrefused
  rw [List.mapM_append]
  exact ⟨left, bind_eq_error.mpr (.inl hleft)⟩

/-- The first turn that is refused selects its command. -/
theorem selects_of_find? {cmds after : List Cmd} (h : Ledger chance Cmd.family cmds source turns rest) {turn : Turn Cmd}
    (hfirst : turns.find? (Turn.refused chance) = some turn) : Selects chance (cmds ++ after) source turn.old := by
  obtain ⟨hrefused, before, later, rfl, hbefore⟩ := List.find?_eq_some_iff_append.mp hfirst
  have hcmds : cmds = (before ++ [turn]).map Turn.old ++ later.map Turn.old := by
    rw [← h.items, ← List.map_append, List.append_assoc, List.singleton_append]
  rw [List.append_cons] at h
  obtain ⟨mid, hledger, -⟩ := h.of_append
  refine ⟨_, later.map Turn.old ++ after, before, turn, mid, ?_, rfl, hledger, ?_, hrefused⟩
  · rw [hcmds, List.append_assoc]
  · intro earlier hearlier
    simpa using hbefore earlier hearlier

/-- **A mutation is refused exactly if it selects a command without a family.** -/
theorem mapM_mutateCmd_eq_fixed [LawfulSource σ] {cmds : List Cmd} {cmd : Cmd} :
    (∃ left, cmds.mapM (mutateCmd chance) source = (.error (.fixed cmd), left)) ↔ Selects chance cmds source cmd := by
  refine ⟨?_, Selects.mapM_eq_error⟩
  rintro ⟨left, hfails⟩
  obtain ⟨before, turns, rest, hledger, hend⟩ := exists_ledger_or_cutShort chance Cmd.family cmds source
  obtain ⟨after, hcmds⟩ : ∃ after, cmds = before ++ after := by
    obtain rfl | ⟨item, after, rfl, -⟩ := hend
    · exact ⟨[], (List.append_nil before).symm⟩
    · exact ⟨item :: after, rfl⟩
  cases hfirst : turns.find? (Turn.refused chance) with
  | some turn =>
    have hselects : Selects chance cmds source turn.old := hcmds ▸ selects_of_find? hledger hfirst
    obtain ⟨left', hleft'⟩ := hselects.mapM_eq_error
    rw [hleft'] at hfails
    cases hfails
    exact hselects
  | none =>
    -- without a refusal all goes well until the source runs dry
    have hpassed := List.find?_eq_none.mp hfirst
    obtain rfl | ⟨item, after, rfl, hdry⟩ := hend
    · rw [hledger.mapM_eq_ok mutateCmd_of_fair hpassed] at hfails
      cases hfails
    · obtain ⟨dry, left', hleft'⟩ := mutateCmd_of_cutShort hdry
      rw [hledger.mapM_eq_stop mutateCmd_of_fair hpassed hleft'] at hfails
      cases hfails

/-- The same for formulas: what a mutation makes is always a formula. -/
theorem mutateBeat_eq_fixed [LawfulSource σ] {cmd : Cmd} :
    (∃ left, mutateBeat program chance source = (.error (.fixed cmd), left))
      ↔ Selects chance program.cmds source cmd := by
  rw [← mapM_mutateCmd_eq_fixed]
  unfold mutateBeat
  constructor
  · rintro ⟨left, h⟩
    rcases bind_eq_error.mp h with h | ⟨cmds, source', _, h⟩
    · exact ⟨left, h⟩
    · -- commands that are no formula are another failure
      unfold beatOf at h
      cases hcompile : Program.compile cmds with
      | ok program =>
        rw [hcompile] at h
        cases h
      | error e =>
        rw [hcompile] at h
        cases h
  · rintro ⟨left, h⟩
    exact ⟨left, bind_eq_error.mpr (.inl h)⟩

/-- If a turn is refused, the mutation fails at the first one. -/
theorem mutateBeat_of_refused [LawfulSource σ] (h : Ledger chance Cmd.family program.cmds source turns rest)
    {turn : Turn Cmd} (hfirst : turns.find? (Turn.refused chance) = some turn) :
    ∃ left, mutateBeat program chance source = (.error (.fixed turn.old), left) := by
  refine mutateBeat_eq_fixed.mpr ?_
  rw [← List.append_nil program.cmds]
  exact selects_of_find? h hfirst

end

/-- One program comes from another by a mutation, whatever the chance and the draws. -/
def Mutant (program new : Program) : Prop :=
  ∃ (σ : Type) (_ : Draw.Source σ) (_ : LawfulSource σ) (chance : Float) (source rest : σ),
    mutateBeat program chance source = (.ok new, rest)

/-- **However many mutations follow each other, the families stay.** -/
theorem kin_of_mutants {first last : Program} (h : Relation.ReflTransGen Mutant first last) :
    List.Forall₂ Kin first.cmds last.cmds := by
  induction h with
  | refl => exact List.forall₂_same.mpr fun cmd _ => .refl cmd
  | tail _ hmutant ih =>
    obtain ⟨σ, _, _, chance, source, rest, hnew⟩ := hmutant
    have hlast := (ends_mutateBeat _ chance source).of_ok hnew
    exact forall₂_kin_trans ih hlast

/-- **Mutations keep to the families.** Draws that never run dry make a ledger. If a command without a family is
selected in it, the mutation fails and names the first such command, and it fails in no other way. If none is, there
is a new formula, in which each command is the one before or another of its family; the effects on the stack and the
remarks are the same. Without a chance nothing changes. After any number of mutations the commands still have the
families that they had at first. -/
theorem mutateBeat_keeps_families [Host] :
    (∀ {σ : Type} [Draw.Source σ] [LawfulSource σ] [NonnegSource σ] [EndlessSource σ] (program : Program)
        (chance : Float) (source : σ),
      ∃ turns rest, Ledger chance Cmd.family program.cmds source turns rest
        ∧ (∀ e, (∃ left, mutateBeat program chance source = (.error e, left))
          ↔ ∃ turn, turns.find? (Turn.refused chance) = some turn ∧ e = .fixed turn.old)
        ∧ (turns.find? (Turn.refused chance) = none →
          ∃ new, mutateBeat program chance source = (.ok new, rest) ∧ new.cmds = turns.map (Turn.new Cmd.family)
            ∧ new.cmds.length = program.cmds.length ∧ List.Forall₂ Kin program.cmds new.cmds
            ∧ new.cmds.map Cmd.effect = program.cmds.map Cmd.effect
            ∧ new.remarkKeys = program.remarkKeys ∧ ∀ key, new.remarks key = program.remarks key)
        ∧ (¬ 0.0 < chance → mutateBeat program chance source = (.ok program, rest)))
    ∧ (∀ cmd, (EvolutionError.fixed cmd).message = "Cannot mutate bytebeat command " ++ cmd.text)
    ∧ ∀ first last : Program, Relation.ReflTransGen Mutant first last →
      List.Forall₂ (fun cmd new => Kin cmd new ∧ new.family = cmd.family) first.cmds last.cmds := by
  refine ⟨?_, fun _ => rfl, ?_⟩
  · intro σ _ _ _ _ program chance source
    obtain ⟨turns, rest, hledger⟩ := exists_ledger chance Cmd.family program.cmds source
    refine ⟨turns, rest, hledger, ?_, ?_, ?_⟩
    · intro e
      constructor
      · rintro ⟨left, hleft⟩
        cases hfirst : turns.find? (Turn.refused chance) with
        | none =>
          obtain ⟨new, hnew, -⟩ := mutateBeat_of_ledger hledger (List.find?_eq_none.mp hfirst)
          rw [hnew] at hleft
          cases hleft
        | some turn =>
          obtain ⟨left', hleft'⟩ := mutateBeat_of_refused hledger hfirst
          rw [hleft'] at hleft
          cases hleft
          exact ⟨turn, rfl, rfl⟩
      · rintro ⟨turn, hfirst, rfl⟩
        exact mutateBeat_of_refused hledger hfirst
    · intro hnone
      obtain ⟨new, hnew, hcmds, hkin⟩ := mutateBeat_of_ledger hledger (List.find?_eq_none.mp hnone)
      have hmetadata : new.metadata = program.metadata := metadata_of_kin hkin []
      refine ⟨new, hnew, hcmds, hkin.length_eq.symm, hkin, effects_of_kin hkin, ?_, ?_⟩
      · rw [Program.remarkKeys, hmetadata]
        rfl
      · intro key
        rw [Program.remarks, hmetadata]
        rfl
    · intro hidle
      have hpassed : ∀ turn ∈ turns, ¬ turn.refused chance = true := by
        intro turn hturn hrefused
        exact hledger.not_lt_of_idle hidle hturn (of_decide_eq_true (Bool.and_eq_true_iff.mp hrefused).1)
      obtain ⟨new, hnew, hcmds, -⟩ := mutateBeat_of_ledger hledger hpassed
      rw [hledger.map_new_of_idle hidle] at hcmds
      rw [hnew, eq_of_cmds_eq hcmds]
  · intro first last hmutants
    exact (kin_of_mutants hmutants).imp fun _ _ hkin => ⟨hkin, hkin.family_eq⟩

/-- Literals of all kinds, one of them beyond what is drawn: `1.5 0x3 300 + +.`. -/
def literals : List Cmd :=
  [.float 1.5, .hex 3, .int 300, .intOp .add, .floatOp .add]

open scoped Host in
theorem mutateBeat_keeps_families_literals :
    ∃ program, Program.compile literals = .ok program
      ∧ (∃ new rest, mutateBeat program 1.0 (Twister.ofSeed 12) = (.ok new, rest)
        ∧ new.cmds.map Cmd.effect = [some 1, some 1, some 1, some (-1), some (-1)]
        ∧ List.Forall₂ (fun cmd new => Kin cmd new ∧ new.family = cmd.family) literals new.cmds)
      ∧ ¬ (0.0 : Float) < -1.0 ∧ ∃ rest, mutateBeat program (-1.0) (Twister.ofSeed 12) = (.ok program, rest) := by
  have hidle : ¬ (0.0 : Float) < -1.0 := by decide +kernel
  have hplain : ∀ cmd ∈ literals, cmd.isStructural = false := by decide
  obtain ⟨program, hprogram⟩ : ∃ program, Program.compile literals = .ok program := ⟨⟨literals, 1, rfl, by decide⟩, rfl⟩
  have hcmds := Program.compile_eq_ok hprogram
  obtain ⟨hmutation, -, hmutants⟩ := mutateBeat_keeps_families
  obtain ⟨turns, rest, hledger, -, hnew, -⟩ := hmutation program 1.0 (Twister.ofSeed 12)
  obtain ⟨-, left, -, -, -, hkept⟩ := hmutation program (-1.0) (Twister.ofSeed 12)
  have hpassed : turns.find? (Turn.refused 1.0) = none := by
    rw [List.find?_eq_none]
    intro turn hturn hrefused
    have hold : turn.old ∈ program.cmds := hledger.items ▸ List.mem_map_of_mem hturn
    rw [hcmds] at hold
    rw [Turn.refused, hplain turn.old hold, Bool.and_false] at hrefused
    cases hrefused
  obtain ⟨new, hnew, -, -, -, heffects, -⟩ := hnew hpassed
  have hfamilies := hmutants program new (.single ⟨Twister, inferInstance, inferInstance, 1.0, _, rest, hnew⟩)
  rw [hcmds] at heffects hfamilies
  exact ⟨program, hprogram, ⟨new, rest, hnew, heffects, hfamilies⟩, hidle, left, hkept hidle⟩

end ProgramArt.Evolution
