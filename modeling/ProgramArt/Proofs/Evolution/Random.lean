import ProgramArt.Host.Standard
import ProgramArt.Proofs.Evolution.Mutation
import ProgramArt.Proofs.Tape.Grammar

/-!
# What is drawn at random

A random program is made of accepted draws, one instruction or command at a time. Which programs can come out of it is
said here without the draws, by conditions on the finished list: `TapeShape` and `BeatShape`. A loop of draws that is
completed has made such a list, and conversely a list of this kind tells the draws that make it: each of its members
is drawn in its turn, and none of them is rejected.
-/

namespace ProgramArt

namespace Evolution

/-! ## Loops of draws -/

/-- Why a random program is not completed. -/
def Uncompleted (e : EvolutionError) : Prop :=
  (∃ x, e = .exhausted x) ∨ e = .stalled

/-- What a loop of draws from `choices` can rely on, as long as `within` holds of the rounds that are left and of its
source: a draw gives a member of the list and takes one round, or fails as told, and so does the loop when no round is
left. -/
structure Affords {σ α : Type} [Draw.Source σ] [Inhabited α] (choices : List α) (within : Nat → σ → Prop)
    (failed : EvolutionError → Prop) : Prop where
  draw : ∀ {fuel source}, within (fuel + 1) source →
    Ends (drawFrom choices) source (fun a rest => a ∈ choices ∧ within fuel rest) (fun e _ => failed e)
  stall : ∀ {source}, within 0 source → failed .stalled

section

variable {α : Type} [Inhabited α] {choices : List α}

/-- Any number of rounds with any source. -/
theorem affords_any {σ : Type} [Draw.Source σ] [Draw.LawfulSource σ] (hne : choices ≠ []) :
    Affords choices (fun _ (_ : σ) => True) Uncompleted where
  draw := by
    intro _ source _
    exact (ends_drawFrom hne source).mono (fun _ _ ha => ⟨ha, trivial⟩) fun _ _ he => .inl he
  stall _ := .inr rfl

/-- More rounds than a script has numbers: the loop does not stall, since the script runs dry before. -/
theorem affords_script (hne : choices ≠ []) :
    Affords choices (fun fuel (script : Draw.Script) => script.rest.length < fuel)
      (fun e => ∃ dry, e = .exhausted dry) where
  draw := by
    intro fuel script hwithin
    constructor
    have hdrawn := ends_drawFrom hne script
    rcases hscript : script with ⟨_ | ⟨value, values⟩, used⟩
    · exact ⟨⟨used⟩, rfl⟩
    · rw [hscript] at hdrawn hwithin
      exact ⟨hdrawn.of_ok rfl, Nat.lt_of_succ_lt_succ hwithin⟩
  stall h := absurd h (Nat.not_lt_zero _)

/-- A member of the list is drawn by its index. -/
theorem drawFrom_idxOf [DecidableEq α] {a : α} (h : a ∈ choices) (values : List Nat) (used : Nat) :
    drawFrom choices (⟨choices.idxOf a :: values, used⟩ : Draw.Script) = (.ok a, ⟨values, used + 1⟩) := by
  have hlt : choices.idxOf a < choices.length := List.idxOf_lt_length_of_mem h
  have hvalue : choices.getD (choices.idxOf a % choices.length) default = a := by
    rw [Nat.mod_eq_of_lt hlt, List.getD_eq_getElem _ _ hlt, List.getElem_idxOf]
  change (Except.ok (choices.getD (choices.idxOf a % choices.length) default), Draw.Script.mk values (used + 1)) = _
  rw [hvalue]

omit [Inhabited α] in
/-- What is beyond a limit in a list that grows at its end was there before, or it is new and the list had reached the
limit. -/
theorem mem_drop_reverse_cons {limit : Nat} {made : List α} {new a : α} (h : a ∈ (new :: made).reverse.drop limit) :
    a ∈ made.reverse.drop limit ∨ a = new ∧ limit ≤ made.length := by
  rw [List.reverse_cons, List.drop_append, List.length_reverse, List.mem_append] at h
  refine h.imp_right fun hnew => ⟨List.mem_singleton.mp (List.mem_of_mem_drop hnew), ?_⟩
  by_contra hlimit
  rw [List.drop_eq_nil_of_le (by rw [List.length_singleton]; omega)] at hnew
  cases hnew

omit [Inhabited α] in
/-- What is beyond a limit behind the first of the members to come is beyond it before. -/
theorem mem_drop_cons {limit count : Nat} {rest : List α} {first a : α} (h : a ∈ rest.drop (limit - (count + 1))) :
    a ∈ (first :: rest).drop (limit - count) := by
  by_cases hlt : count < limit
  · rw [show limit - count = (limit - (count + 1)) + 1 by omega, List.drop_succ_cons]
    exact h
  · rw [show limit - count = 0 by omega]
    exact List.mem_cons_of_mem first (List.mem_of_mem_drop h)

end

/-! ## Tape programs -/

section

open Tape

/-- An instruction that may be drawn: reading and writing only if `io` says so. -/
def isAllowed (io : Bool) : Instr → Bool
  | .read | .write => io
  | _ => true

theorem mem_tapeChoices {io : Bool} {instr : Instr} : instr ∈ tapeChoices io ↔ isAllowed io instr = true := by
  cases io <;> cases instr <;> decide

theorem tapeChoices_ne_nil (io : Bool) : tapeChoices io ≠ [] := by
  cases io <;> decide

/-- What a random program of at least `length` instructions looks like: its brackets are balanced, it does not read or
write unless `io` says so, and from `length` on it only closes loops. -/
structure TapeShape (length : Int) (io : Bool) (instrs : List Instr) : Prop where
  balanced : isBalanced instrs = true
  allowed : ∀ instr ∈ instrs, isAllowed io instr = true
  long : length ≤ instrs.length
  closing : ∀ instr ∈ instrs.drop length.toNat, instr = .leave

instance (length : Int) (io : Bool) (instrs : List Instr) : Decidable (TapeShape length io instrs) :=
  decidable_of_iff
    (isBalanced instrs = true ∧ (∀ instr ∈ instrs, isAllowed io instr = true) ∧ length ≤ instrs.length ∧
      ∀ instr ∈ instrs.drop length.toNat, instr = .leave)
    ⟨fun ⟨balanced, allowed, long, closing⟩ => ⟨balanced, allowed, long, closing⟩,
      fun ⟨balanced, allowed, long, closing⟩ => ⟨balanced, allowed, long, closing⟩⟩

/-- Every loop is opened before `length`, so that no more than `length` brackets close one. -/
theorem TapeShape.length_le {length : Int} {io : Bool} {instrs : List Instr} (h : TapeShape length io instrs) :
    instrs.length ≤ 2 * length.toNat := by
  have hbalance := (nonneg_balance_of_wellNested (isBalanced_iff_wellNested.mp h.balanced)).1
  have hopened : (instrs.take length.toNat).count .enter ≤ length.toNat :=
    Nat.le_trans List.count_le_length (List.length_take_le _ _)
  have hopens : (instrs.drop length.toNat).count .enter = 0 :=
    List.count_eq_zero.mpr fun hmem => by cases h.closing .enter hmem
  have hcloses : (instrs.drop length.toNat).count .leave = (instrs.drop length.toNat).length :=
    List.count_eq_length.mpr fun instr hmem => (h.closing instr hmem).symm
  rw [← List.take_append_drop length.toNat instrs, balance_append, balance, balance, hopens, hcloses,
    List.length_drop] at hbalance
  omega

/-- The instructions made so far, the last one first, are the beginning of a random program: `count` of them, with
`depth` brackets open. -/
structure TapeGrows (length : Int) (io : Bool) (count depth : Nat) (made : List Instr) : Prop where
  count_eq : made.length = count
  depth_eq : depthAfter? 0 made.reverse = some depth
  allowed : ∀ instr ∈ made, isAllowed io instr = true
  closing : ∀ instr ∈ made.reverse.drop length.toNat, instr = .leave

theorem depthAfter?_singleton {depth : Nat} {instr : Instr} (h : depth ≠ 0 ∨ instr ≠ .leave) :
    depthAfter? depth [instr] = some (openAfter depth instr) := by
  cases instr with
  | leave =>
    cases depth with
    | zero => simp at h
    | succ depth => rfl
  | _ => rfl

section

variable {length : Int} {io : Bool} {count depth : Nat} {made : List Instr}

theorem tapeGrows_nil : TapeGrows length io 0 0 [] :=
  ⟨rfl, rfl, by simp, by simp⟩

/-- **One more instruction.** A closing bracket is taken only where one is open, and nothing else from `length` on. -/
theorem TapeGrows.cons (h : TapeGrows length io count depth made) {instr : Instr} (hallowed : isAllowed io instr = true)
    (hopen : depth ≠ 0 ∨ instr ≠ .leave) (hclosing : length ≤ (count : Int) → instr = .leave) :
    TapeGrows length io (count + 1) (openAfter depth instr) (instr :: made) where
  count_eq := by rw [List.length_cons, h.count_eq]
  depth_eq := by
    rw [List.reverse_cons, depthAfter?_append, h.depth_eq, Option.bind_some, depthAfter?_singleton hopen]
  allowed := List.forall_mem_cons.mpr ⟨hallowed, h.allowed⟩
  closing := by
    intro other hother
    obtain hother | ⟨rfl, hlimit⟩ := mem_drop_reverse_cons hother
    · exact h.closing other hother
    · rw [h.count_eq] at hlimit
      exact hclosing (by omega)

theorem TapeGrows.shape (h : TapeGrows length io count 0 made) (hlong : length ≤ (count : Int)) :
    TapeShape length io made.reverse where
  balanced := by
    rw [isBalanced, h.depth_eq]
    rfl
  allowed := fun instr hinstr => h.allowed instr (List.mem_reverse.mp hinstr)
  long := by
    rw [List.length_reverse, h.count_eq]
    exact hlong
  closing := h.closing

variable {σ : Type} [Draw.Source σ]

/-- **A loop of draws that is completed has made a random program.** -/
theorem ends_randomInstrs {within : Nat → σ → Prop} {failed : EvolutionError → Prop}
    (hdraws : Affords (tapeChoices io) within failed) {fuel : Nat}
    (h : TapeGrows length io count depth made) {source : σ} (hwithin : within fuel source) :
    Ends (randomInstrs (tapeChoices io) length fuel count depth made) source
      (fun instrs _ => TapeShape length io instrs) (fun e _ => failed e) := by
  induction fuel generalizing count depth made source with
  | zero => exact ends_throw (hdraws.stall hwithin)
  | succ fuel ih =>
    unfold randomInstrs
    split
    · rename_i hmore
      refine (hdraws.draw hwithin).bind ?_
      rintro drawn rest ⟨hdrawn, hrest⟩
      split
      · exact ih h hrest
      · rename_i haccepted
        refine ih (h.cons ?_ ?_ ?_) hrest
        · split
          · rfl
          · exact mem_tapeChoices.mp hdrawn
        · -- once the length is reached, only an open loop asks for more
          by_cases hlong : length ≤ (count : Int)
          · exact .inl (by omega)
          · rw [if_neg hlong]
            by_cases hzero : depth = 0
            · exact .inr fun hleave => haccepted ⟨hzero, hleave⟩
            · exact .inl hzero
        · exact fun hlong => if_pos hlong
    · rename_i hcomplete
      obtain rfl : depth = 0 := by omega
      refine ends_pure ?_
      rw [List.replicate_zero, List.append_nil]
      exact h.shape (by omega)

/-- The loop of `randomInstrs` without the brackets that close what is open in the end. -/
def unclosedInstrs (choices : List Instr) (length : Int) :
    (fuel : Nat) → (count depth : Nat) → (made : List Instr) → Evolving σ (List Instr)
  | 0, _, _, _ => throw .stalled
  | fuel + 1, count, depth, made =>
    if (count : Int) < length ∨ depth ≠ 0 then do
      let drawn ← drawFrom choices
      if depth = 0 ∧ drawn = .leave then
        unclosedInstrs choices length fuel count depth made
      else
        let instr := if length ≤ (count : Int) then .leave else drawn
        unclosedInstrs choices length fuel (count + 1) (openAfter depth instr) (instr :: made)
    else
      return made.reverse

/-- **Nothing is open in the end.** -/
theorem randomInstrs_eq_unclosedInstrs (choices : List Instr) (fuel : Nat) :
    randomInstrs choices length fuel count depth made
      = (unclosedInstrs choices length fuel count depth made : Evolving σ (List Instr)) := by
  induction fuel generalizing count depth made with
  | zero => rfl
  | succ fuel ih =>
    unfold randomInstrs unclosedInstrs
    split
    · refine bind_congr fun drawn => ?_
      split
      · exact ih
      · exact ih
    · rename_i hcomplete
      obtain rfl : depth = 0 := by omega
      rw [List.replicate_zero, List.append_nil]

/-- **The draws that make a given program.** What is still to be made is drawn member by member. -/
theorem randomInstrs_script {rest : List Instr} (hdepth : depthAfter? depth rest = some 0)
    (hallowed : ∀ instr ∈ rest, isAllowed io instr = true) (hlong : length ≤ (count : Int) + rest.length)
    (hclosing : ∀ instr ∈ rest.drop (length.toNat - count), instr = .leave) {fuel : Nat} (hfuel : rest.length < fuel)
    (used : Nat) :
    randomInstrs (tapeChoices io) length fuel count depth made
        (⟨rest.map (tapeChoices io).idxOf, used⟩ : Draw.Script)
      = (.ok (made.reverse ++ rest), ⟨[], used + rest.length⟩) := by
  induction rest generalizing count depth made fuel used with
  | nil =>
    obtain ⟨fuel, rfl⟩ := Nat.exists_eq_add_one.mpr hfuel
    cases hdepth
    rw [randomInstrs, if_neg (by simp at hlong; omega)]
    rfl
  | cons instr rest ih =>
    obtain ⟨fuel, rfl⟩ := Nat.exists_eq_add_one.mpr (Nat.lt_of_le_of_lt (Nat.zero_le _) hfuel)
    obtain ⟨hinstr, hrest⟩ := List.forall_mem_cons.mp hallowed
    -- a closing bracket that is still to be made has a loop to close
    have hopen : depth ≠ 0 ∨ instr ≠ .leave := by
      by_contra hnot
      push Not at hnot
      rw [hnot.1, hnot.2] at hdepth
      cases hdepth
    have hleave : length ≤ (count : Int) → instr = .leave := by
      intro hle
      apply hclosing
      rw [show length.toNat - count = 0 by omega]
      exact List.mem_cons_self
    rw [randomInstrs, if_pos]
    · refine bind_eq_ok.mpr ⟨instr, _, drawFrom_idxOf (mem_tapeChoices.mpr hinstr) _ used, ?_⟩
      rw [if_neg fun h => hopen.elim (fun hne => hne h.1) fun hne => hne h.2]
      have hkept : (if length ≤ (count : Int) then Instr.leave else instr) = instr := by
        split
        · rename_i hle
          exact (hleave hle).symm
        · rfl
      simp only [hkept]
      rw [ih]
      · rw [List.reverse_cons, List.append_assoc, List.singleton_append, List.length_cons, Nat.add_assoc used 1,
          Nat.add_comm 1]
      · rw [← List.singleton_append, depthAfter?_append, depthAfter?_singleton hopen] at hdepth
        exact hdepth
      · exact hrest
      · rw [List.length_cons] at hlong
        omega
      · exact fun other hother => hclosing other (mem_drop_cons hother)
      · rw [List.length_cons] at hfuel
        omega
    · by_cases hle : length ≤ (count : Int)
      · exact .inr (hopen.resolve_right fun hne => hne (hleave hle))
      · exact .inl (by omega)

theorem ends_randomTapeWithin {within : Nat → σ → Prop} {failed : EvolutionError → Prop}
    (hdraws : Affords (tapeChoices io) within failed) {fuel : Nat} {source : σ} (hwithin : within fuel source) :
    Ends (randomTapeWithin fuel length io) source (fun program _ => TapeShape length io program.instrs.toList)
      (fun e _ => failed e) := by
  refine (ends_randomInstrs hdraws tapeGrows_nil hwithin).bind ?_
  intro instrs rest hshape
  obtain ⟨program, rfl, hprogram⟩ := exists_tapeOf (σ := σ) hshape.balanced
  constructor
  rw [if_pos hshape.balanced, hprogram]
  exact hshape

/-- **A random tape program is completed or the draws end.** -/
theorem ends_randomTape [Host] [Draw.LawfulSource σ] (length : Int) (io : Bool) (source : σ) :
    Ends (randomTape length io) source (fun program _ => TapeShape length io program.instrs.toList)
      (fun e _ => Uncompleted e) :=
  ends_randomTapeWithin (affords_any (tapeChoices_ne_nil io)) trivial

/-- Nothing is drawn for a program that need not have an instruction. -/
theorem randomTape_of_nonpos [Host] (hlength : length ≤ 0) (source : σ) :
    ∃ program : Program, randomTape length io source = (.ok program, source) ∧ program.instrs = #[] := by
  obtain ⟨fuel, hfuel⟩ := Nat.exists_eq_add_one.mpr (Nat.lt_of_le_of_lt (Nat.zero_le _) (Host.lt_patience length))
  obtain ⟨program, hinstrs, hprogram⟩ := exists_tapeOf (σ := σ) (show isBalanced [] = true from rfl)
  refine ⟨program, bind_eq_ok.mpr ⟨[], source, ?_, ?_⟩, Array.toList_eq_nil_iff.mp hinstrs⟩
  · rw [hfuel, randomInstrs, if_neg (by omega)]
    rfl
  · rw [if_pos (show isBalanced [] = true from rfl), hprogram]

/-- Every program of that shape is drawn. -/
theorem TapeShape.exists_draws [Host] {instrs : List Instr} (h : TapeShape length io instrs) :
    ∃ draws program, randomTape length io (⟨draws, 0⟩ : Draw.Script) = (.ok program, ⟨[], draws.length⟩) ∧
      program.instrs.toList = instrs := by
  obtain ⟨program, hinstrs, hprogram⟩ := exists_tapeOf (σ := Draw.Script) h.balanced
  have hfuel : instrs.length < Host.patience length := by
    have hlength := h.length_le
    have hpatience := Host.lt_patience length
    omega
  have hdrawn : randomInstrs (tapeChoices io) length (Host.patience length) 0 0 []
      (⟨instrs.map (tapeChoices io).idxOf, 0⟩ : Draw.Script) = (.ok instrs, ⟨[], 0 + instrs.length⟩) :=
    randomInstrs_script (beq_iff_eq.mp h.balanced) h.allowed (by simpa using h.long) h.closing hfuel 0
  refine ⟨instrs.map (tapeChoices io).idxOf, program, bind_eq_ok.mpr ⟨instrs, _, hdrawn, ?_⟩, hinstrs⟩
  rw [if_pos h.balanced, hprogram, Nat.zero_add, List.length_map]

end

/-- **Random tape programs.** However many rounds are allowed and whatever is drawn, a loop that is completed has made
a program of the shape, which is at most twice as long as was asked for, and there is no other failure than that the
draws or the rounds end. With more rounds than there are draws only the draws can end. The brackets that are to close
what is open in the end are none, and nothing is drawn for a length that is not positive. Conversely every program of
the shape is made by some list of draws. -/
theorem randomTape_range [Host] (length : Int) (io : Bool) :
    (∀ (σ : Type) [Draw.Source σ] [Draw.LawfulSource σ] (fuel : Nat) (source : σ),
      Ends (randomTapeWithin fuel length io) source
        (fun program _ => TapeShape length io program.instrs.toList ∧ program.size ≤ 2 * length.toNat)
        (fun e _ => Uncompleted e)) ∧
    (∀ (fuel : Nat) (draws : List Nat), draws.length < fuel →
      Ends (randomTapeWithin fuel length io) (⟨draws, 0⟩ : Draw.Script) (fun _ _ => True)
        (fun e _ => ∃ dry, e = .exhausted dry)) ∧
    (∀ (σ : Type) [Draw.Source σ] (fuel : Nat),
      randomInstrs (tapeChoices io) length fuel 0 0 []
        = (unclosedInstrs (tapeChoices io) length fuel 0 0 [] : Evolving σ (List Instr))) ∧
    (length ≤ 0 → ∀ (σ : Type) [Draw.Source σ] (source : σ),
      ∃ program : Program, randomTape length io source = (.ok program, source) ∧ program.instrs = #[]) ∧
    ∀ instrs, TapeShape length io instrs →
      ∃ draws program, randomTape length io (⟨draws, 0⟩ : Draw.Script) = (.ok program, ⟨[], draws.length⟩) ∧
        program.instrs.toList = instrs := by
  have hne := tapeChoices_ne_nil io
  refine ⟨?_, ?_, ?_, ?_, fun instrs h => h.exists_draws⟩
  · intro σ _ _ fuel source
    refine (ends_randomTapeWithin (affords_any hne) trivial).mono_done ?_
    intro program _ hshape
    exact ⟨hshape, hshape.length_le⟩
  · intro fuel draws hfuel
    exact (ends_randomTapeWithin (affords_script hne) hfuel).mono_done fun _ _ _ => trivial
  · intro σ _ fuel
    exact randomInstrs_eq_unclosedInstrs (tapeChoices io) fuel
  · intro hlength σ _ source
    exact randomTape_of_nonpos hlength source

open scoped Host in
/-- Two instructions are asked for, and a third one closes the loop: `+[]`. -/
theorem randomTape_range_loop :
    TapeShape 2 false [.inc, .enter, .leave] ∧
    (∃ draws program, randomTape 2 false (⟨draws, 0⟩ : Draw.Script) = (.ok program, ⟨[], draws.length⟩) ∧
      program.instrs.toList = [.inc, .enter, .leave]) ∧
    Ends (randomTapeWithin 4 2 false) (⟨[0, 4, 7], 0⟩ : Draw.Script)
      (fun program _ => TapeShape 2 false program.instrs.toList ∧ program.size ≤ 2 * (2 : Int).toNat)
      (fun e _ => Uncompleted e) ∧
    Ends (randomTapeWithin 4 2 false) (⟨[0, 4, 7], 0⟩ : Draw.Script) (fun _ _ => True)
      (fun e _ => ∃ dry, e = .exhausted dry) ∧
    ∃ program : Program, randomTape (-1) true (⟨[], 0⟩ : Draw.Script) = (.ok program, ⟨[], 0⟩)
      ∧ program.instrs = #[] := by
  obtain ⟨hany, hscript, -, -, hdraws⟩ := randomTape_range 2 false
  obtain ⟨-, -, -, hnonpos, -⟩ := randomTape_range (-1) true
  have hshape : TapeShape 2 false [.inc, .enter, .leave] := by decide
  exact ⟨hshape, hdraws _ hshape, hany Draw.Script 4 ⟨[0, 4, 7], 0⟩, hscript 4 [0, 4, 7] (by decide),
    hnonpos (by decide) Draw.Script ⟨[], 0⟩⟩

end

/-! ## Formulas -/

section

open Beat

/-- The commands of random formulas: variables and operators on integers. -/
def isDrawn : Cmd → Bool
  | .var _ | .intOp _ => true
  | _ => false

/-- The operators among them, which lower the stack. -/
def isOperator : Cmd → Bool
  | .intOp _ => true
  | _ => false

/-- By how much commands change the height of the stack. -/
def depthOf (cmds : List Cmd) : Int :=
  (cmds.map fun cmd => cmd.effect.getD 0).sum

/-- The height of the stack is positive behind every command, if it is `height` in the beginning. -/
def StaysPositive (height : Int) (cmds : List Cmd) : Prop :=
  ∀ k, 0 < k → k ≤ cmds.length → 0 < height + depthOf (cmds.take k)

instance (height : Int) (cmds : List Cmd) : Decidable (StaysPositive height cmds) :=
  decidable_of_iff (∀ k < cmds.length, 0 < height + depthOf (cmds.take (k + 1)))
    ⟨fun h k hpos hle => by simpa [Nat.sub_add_cancel hpos] using h (k - 1) (by omega),
      fun h k hlt => h (k + 1) (Nat.succ_pos k) hlt⟩

/-- What a random formula of at least `length` commands looks like: variables and operators on integers, behind each
of which something is on the stack and behind the last of which there is one value. There is a command at least, and
from `length` on, but for the first one, there are only operators. -/
structure BeatShape (length : Int) (cmds : List Cmd) : Prop where
  drawn : ∀ cmd ∈ cmds, isDrawn cmd = true
  positive : StaysPositive 0 cmds
  single : depthOf cmds = 1
  long : max length.toNat 1 ≤ cmds.length
  closing : ∀ cmd ∈ cmds.drop (max length.toNat 1), isOperator cmd = true

instance (length : Int) (cmds : List Cmd) : Decidable (BeatShape length cmds) :=
  decidable_of_iff
    ((∀ cmd ∈ cmds, isDrawn cmd = true) ∧ StaysPositive 0 cmds ∧ depthOf cmds = 1 ∧ max length.toNat 1 ≤ cmds.length ∧
      ∀ cmd ∈ cmds.drop (max length.toNat 1), isOperator cmd = true)
    ⟨fun ⟨drawn, positive, single, long, closing⟩ => ⟨drawn, positive, single, long, closing⟩,
      fun ⟨drawn, positive, single, long, closing⟩ => ⟨drawn, positive, single, long, closing⟩⟩

theorem mem_beatChoices {cmd : Cmd} : cmd ∈ beatChoices ↔ isDrawn cmd = true := by
  constructor
  · intro h
    have hall : ∀ cmd ∈ beatChoices, isDrawn cmd = true := by decide
    exact hall cmd h
  · intro h
    cases cmd with
    | var v => cases v <;> decide
    | intOp op => cases op <;> decide
    | _ => cases h

/-- An operator lowers the stack by one, and a variable raises it by one. -/
theorem effect_of_isDrawn {cmd : Cmd} (h : isDrawn cmd = true) :
    cmd.effect = some (if isOperator cmd then -1 else 1) := by
  cases cmd with
  | var v => rfl
  | intOp op => rfl
  | _ => cases h

@[simp] theorem depthOf_nil : depthOf [] = 0 := rfl

@[simp] theorem depthOf_cons (cmd : Cmd) (rest : List Cmd) :
    depthOf (cmd :: rest) = cmd.effect.getD 0 + depthOf rest := by
  simp [depthOf]

theorem depthOf_append (first second : List Cmd) : depthOf (first ++ second) = depthOf first + depthOf second := by
  simp [depthOf]

theorem staysPositive_nil (height : Int) : StaysPositive height [] := by
  intro k hpos hle
  rw [List.length_nil] at hle
  omega

theorem staysPositive_cons {height : Int} {cmd : Cmd} {rest : List Cmd} :
    StaysPositive height (cmd :: rest) ↔
      0 < height + cmd.effect.getD 0 ∧ StaysPositive (height + cmd.effect.getD 0) rest := by
  constructor
  · intro h
    refine ⟨by simpa using h 1 (by omega) (by simp), ?_⟩
    intro k _ hle
    have hlater := h (k + 1) (by omega) (by simpa using hle)
    rwa [List.take_succ_cons, depthOf_cons, ← Int.add_assoc] at hlater
  · rintro ⟨hfirst, hrest⟩ k hpos hle
    obtain ⟨k, rfl⟩ := Nat.exists_eq_add_one.mpr hpos
    rw [List.take_succ_cons, depthOf_cons, ← Int.add_assoc]
    cases k with
    | zero => simpa using hfirst
    | succ k => exact hrest (k + 1) (by omega) (by simpa using hle)

/-- **Commands pass the check exactly if the height stays positive**, if there are no remarks among them. -/
theorem heightFrom_eq_ok_iff {cmds : List Cmd} (hcmds : ∀ cmd ∈ cmds, isDrawn cmd = true) {index : Nat}
    {height final : Int} :
    heightFrom index height cmds = .ok final ↔ height + depthOf cmds = final ∧ StaysPositive height cmds := by
  induction cmds generalizing index height with
  | nil => simp [heightFrom, staysPositive_nil]
  | cons cmd rest ih =>
    obtain ⟨hcmd, hrest⟩ := List.forall_mem_cons.mp hcmds
    have heffect := effect_of_isDrawn hcmd
    generalize (if isOperator cmd then (-1 : Int) else 1) = change at heffect
    rw [heightFrom, staysPositive_cons, depthOf_cons, heffect]
    simp only [Option.getD_some]
    split
    · rename_i hrefused
      constructor
      · intro h
        cases h
      · rintro ⟨-, hleaves, -⟩
        omega
    · rename_i hleaves
      rw [ih hrest, ← Int.add_assoc]
      constructor
      · rintro ⟨hfinal, hpositive⟩
        exact ⟨hfinal, by omega, hpositive⟩
      · rintro ⟨hfinal, -, hpositive⟩
        exact ⟨hfinal, hpositive⟩

/-- The height counts the variables against the operators. -/
theorem depthOf_eq {cmds : List Cmd} (h : ∀ cmd ∈ cmds, isDrawn cmd = true) :
    depthOf cmds = cmds.length - 2 * (cmds.countP isOperator : Int) := by
  induction cmds with
  | nil => rfl
  | cons cmd rest ih =>
    obtain ⟨hcmd, hrest⟩ := List.forall_mem_cons.mp h
    rw [depthOf_cons, effect_of_isDrawn hcmd, ih hrest, List.length_cons, List.countP_cons]
    cases isOperator cmd <;> simp <;> omega

/-- There is one variable more than there are operators. -/
theorem BeatShape.length_odd {length : Int} {cmds : List Cmd} (h : BeatShape length cmds) : cmds.length % 2 = 1 := by
  have hsingle := h.single
  rw [depthOf_eq h.drawn] at hsingle
  omega

/-- Every value but one is taken by an operator, and beyond `length` there are operators only. -/
theorem BeatShape.length_le {length : Int} {cmds : List Cmd} (h : BeatShape length cmds) :
    cmds.length ≤ 2 * max length.toNat 1 - 1 := by
  have hsingle := h.single
  have hoperators : (cmds.drop (max length.toNat 1)).countP isOperator = (cmds.drop (max length.toNat 1)).length :=
    List.countP_eq_length.mpr h.closing
  have hsplit : cmds.countP isOperator = (cmds.take (max length.toNat 1)).countP isOperator +
      (cmds.drop (max length.toNat 1)).countP isOperator := by
    rw [← List.countP_append, List.take_append_drop]
  rw [depthOf_eq h.drawn] at hsingle
  rw [hoperators, List.length_drop] at hsplit
  omega

/-- The commands made so far, the last one first, are the beginning of a random formula: `count` of them, which leave
`depth` values. -/
structure BeatGrows (length : Int) (count : Nat) (depth : Int) (made : List Cmd) : Prop where
  count_eq : made.length = count
  depth_eq : depthOf made.reverse = depth
  positive : StaysPositive 0 made.reverse
  drawn : ∀ cmd ∈ made, isDrawn cmd = true
  closing : ∀ cmd ∈ made.reverse.drop (max length.toNat 1), isOperator cmd = true

theorem staysPositive_concat {height : Int} {cmds : List Cmd} {cmd : Cmd} (h : StaysPositive height cmds)
    (hleaves : 0 < height + depthOf cmds + cmd.effect.getD 0) : StaysPositive height (cmds ++ [cmd]) := by
  intro k hpos hle
  rw [List.length_append, List.length_singleton] at hle
  by_cases hlast : k ≤ cmds.length
  · rw [List.take_append_of_le_length hlast]
    exact h k hpos hlast
  · rw [List.take_of_length_le (by rw [List.length_append, List.length_singleton]; omega), depthOf_append, depthOf_cons,
      depthOf_nil]
    omega

section

variable {length : Int} {count : Nat} {depth : Int} {made : List Cmd}

theorem beatGrows_nil : BeatGrows length 0 0 [] :=
  ⟨rfl, rfl, staysPositive_nil 0, by simp, by simp⟩

/-- Behind the first command there is something on the stack. -/
theorem BeatGrows.depth_pos (h : BeatGrows length count depth made) (hcount : 0 < count) : 0 < depth := by
  have hpositive := h.positive made.reverse.length (by rw [List.length_reverse, h.count_eq]; exact hcount)
    (Nat.le_refl _)
  rwa [List.take_length, h.depth_eq, Int.zero_add] at hpositive

/-- **One more command.** It is taken only if it leaves something, and from `length` on only if it lowers the stack or
there is nothing on the stack yet. -/
theorem BeatGrows.cons (h : BeatGrows length count depth made) {cmd : Cmd} (hdrawn : isDrawn cmd = true)
    (hleaves : 0 < depth + cmd.effect.getD 0)
    (hclosing : length ≤ (count : Int) → 0 < depth → cmd.effect.getD 0 ≤ 0) :
    BeatGrows length (count + 1) (depth + cmd.effect.getD 0) (cmd :: made) where
  count_eq := by rw [List.length_cons, h.count_eq]
  depth_eq := by rw [List.reverse_cons, depthOf_append, h.depth_eq, depthOf_cons, depthOf_nil, Int.add_zero]
  positive := by
    rw [List.reverse_cons]
    exact staysPositive_concat h.positive (by rw [h.depth_eq]; omega)
  drawn := List.forall_mem_cons.mpr ⟨hdrawn, h.drawn⟩
  closing := by
    intro other hother
    obtain hother | ⟨rfl, hlimit⟩ := mem_drop_reverse_cons hother
    · exact h.closing other hother
    · rw [h.count_eq] at hlimit
      have hlowers := hclosing (by omega) (h.depth_pos (by omega))
      rw [effect_of_isDrawn hdrawn, Option.getD_some] at hlowers
      by_contra hvariable
      rw [if_neg hvariable] at hlowers
      omega

theorem BeatGrows.shape (h : BeatGrows length count 1 made) (hlong : length ≤ (count : Int)) :
    BeatShape length made.reverse where
  drawn := fun cmd hcmd => h.drawn cmd (List.mem_reverse.mp hcmd)
  positive := h.positive
  single := h.depth_eq
  long := by
    have hne : made ≠ [] := by
      rintro rfl
      have hdepth := h.depth_eq
      cases hdepth
    have hpos := List.length_pos_of_ne_nil hne
    have hcount := h.count_eq
    rw [List.length_reverse]
    omega
  closing := h.closing

variable {σ : Type} [Draw.Source σ]

/-- **A loop of draws that is completed has made a random formula.** -/
theorem ends_randomCmds {within : Nat → σ → Prop} {failed : EvolutionError → Prop}
    (hdraws : Affords beatChoices within failed) {fuel : Nat} (h : BeatGrows length count depth made) {source : σ}
    (hwithin : within fuel source) :
    Ends (randomCmds length fuel count depth made) source (fun cmds _ => BeatShape length cmds)
      (fun e _ => failed e) := by
  induction fuel generalizing count depth made source with
  | zero => exact ends_throw (hdraws.stall hwithin)
  | succ fuel ih =>
    unfold randomCmds
    split
    · refine (hdraws.draw hwithin).bind ?_
      rintro cmd rest ⟨hcmd, hrest⟩
      dsimp only
      split
      · exact ih h hrest
      · rename_i haccepted
        refine ih (h.cons (mem_beatChoices.mp hcmd) (by omega) ?_) hrest
        intro hlong hdepth
        omega
    · rename_i hcomplete
      obtain rfl : depth = 1 := by omega
      exact ends_pure (h.shape (by omega))

/-- **The draws that make a given formula.** What is still to be made is drawn member by member. -/
theorem randomCmds_script {rest : List Cmd} (hdrawn : ∀ cmd ∈ rest, isDrawn cmd = true)
    (hpositive : StaysPositive depth rest) (hsingle : depth + depthOf rest = 1)
    (hlong : length ≤ (count : Int) + rest.length)
    (hclosing : ∀ cmd ∈ rest.drop (max length.toNat 1 - count), isOperator cmd = true)
    (hstart : count = 0 → depth = 0) {fuel : Nat} (hfuel : rest.length < fuel) (used : Nat) :
    randomCmds length fuel count depth made (⟨rest.map beatChoices.idxOf, used⟩ : Draw.Script)
      = (.ok (made.reverse ++ rest), ⟨[], used + rest.length⟩) := by
  induction rest generalizing count depth made fuel used with
  | nil =>
    obtain ⟨fuel, rfl⟩ := Nat.exists_eq_add_one.mpr hfuel
    rw [depthOf_nil] at hsingle
    rw [List.length_nil] at hlong
    rw [randomCmds, if_neg (by omega), List.append_nil]
    rfl
  | cons cmd rest ih =>
    obtain ⟨fuel, rfl⟩ := Nat.exists_eq_add_one.mpr (Nat.lt_of_le_of_lt (Nat.zero_le _) hfuel)
    obtain ⟨hcmd, hrest⟩ := List.forall_mem_cons.mp hdrawn
    obtain ⟨hleaves, hlater⟩ := staysPositive_cons.mp hpositive
    -- beyond `length` the formula goes on with an operator, unless it has not begun
    have hlowers : length ≤ (count : Int) → count ≠ 0 → cmd.effect.getD 0 = -1 := by
      intro hle hbegun
      have hoperator : isOperator cmd = true := by
        apply hclosing
        rw [show max length.toNat 1 - count = 0 by omega]
        exact List.mem_cons_self
      rw [effect_of_isDrawn hcmd, if_pos hoperator]
      rfl
    have hmore : (count : Int) < length ∨ depth ≠ 1 := by
      by_cases hle : length ≤ (count : Int)
      · by_cases hbegun : count = 0
        · have hzero := hstart hbegun
          omega
        · have hlower := hlowers hle hbegun
          omega
      · omega
    have haccepted : ¬ (depth + cmd.effect.getD 0 ≤ 0 ∨ (length ≤ (count : Int) ∧ 0 < cmd.effect.getD 0
      ∧ 0 < depth)) := by
      rintro (hrefused | ⟨hle, hraises, hdepth⟩)
      · omega
      · by_cases hbegun : count = 0
        · have hzero := hstart hbegun
          omega
        · have hlower := hlowers hle hbegun
          omega
    rw [randomCmds, if_pos hmore]
    refine bind_eq_ok.mpr ⟨cmd, _, drawFrom_idxOf (mem_beatChoices.mpr hcmd) _ used, ?_⟩
    simp only [if_neg haccepted]
    rw [ih hrest hlater]
    · rw [List.reverse_cons, List.append_assoc, List.singleton_append, List.length_cons, Nat.add_assoc used 1,
        Nat.add_comm 1]
    · rw [depthOf_cons] at hsingle
      omega
    · rw [List.length_cons] at hlong
      omega
    · exact fun other hother => hclosing other (mem_drop_cons hother)
    · omega
    · rw [List.length_cons] at hfuel
      omega

theorem BeatShape.heightFrom_eq {cmds : List Cmd} (h : BeatShape length cmds) : heightFrom 0 0 cmds = .ok 1 :=
  (heightFrom_eq_ok_iff h.drawn).mpr ⟨by rw [h.single]; rfl, h.positive⟩

theorem ends_randomBeatWithin {within : Nat → σ → Prop} {failed : EvolutionError → Prop}
    (hdraws : Affords beatChoices within failed) {fuel : Nat} {source : σ} (hwithin : within fuel source) :
    Ends (randomBeatWithin fuel length) source (fun program _ => BeatShape length program.cmds)
      (fun e _ => failed e) := by
  refine (ends_randomCmds hdraws beatGrows_nil hwithin).bind ?_
  intro cmds rest hshape
  obtain ⟨program, rfl, hprogram⟩ := exists_beatOf (σ := σ) true hshape.heightFrom_eq (by decide)
  constructor
  rw [hprogram]
  exact hshape

/-- **A random formula is completed or the draws end.** -/
theorem ends_randomBeat [Host] [Draw.LawfulSource σ] (length : Int) (source : σ) :
    Ends (randomBeat length) source (fun program _ => BeatShape length program.cmds) (fun e _ => Uncompleted e) :=
  ends_randomBeatWithin (affords_any (by decide)) trivial

/-- Every formula of that shape is drawn. -/
theorem BeatShape.exists_draws [Host] {cmds : List Cmd} (h : BeatShape length cmds) :
    ∃ draws program, randomBeat length (⟨draws, 0⟩ : Draw.Script) = (.ok program, ⟨[], draws.length⟩) ∧
      program.cmds = cmds := by
  obtain ⟨program, hcmds, hprogram⟩ := exists_beatOf (σ := Draw.Script) true h.heightFrom_eq (by decide)
  have hfuel : cmds.length < Host.patience length := by
    have hlength := h.length_le
    have hpatience := Host.lt_patience length
    omega
  have hlong : length ≤ ((0 : Nat) : Int) + cmds.length := by
    have hmax := h.long
    omega
  have hdrawn : randomCmds length (Host.patience length) 0 0 [] (⟨cmds.map beatChoices.idxOf, 0⟩ : Draw.Script)
      = (.ok cmds, ⟨[], 0 + cmds.length⟩) :=
    randomCmds_script h.drawn h.positive (by rw [h.single]; rfl) hlong h.closing (fun _ => rfl) hfuel 0
  refine ⟨cmds.map beatChoices.idxOf, program, bind_eq_ok.mpr ⟨cmds, _, hdrawn, ?_⟩, hcmds⟩
  rw [hprogram, Nat.zero_add, List.length_map]

end

/-- **Random formulas.** However many rounds are allowed and whatever is drawn, a loop that is completed has made a
formula of the shape. Its length is odd and less than twice what was asked for, or one if nothing was asked for, and
there is no other failure than that the draws or the rounds end. With more rounds than there are draws only the draws
can end. Conversely every formula of the shape is made by some list of draws. -/
theorem randomBeat_range [Host] (length : Int) :
    (∀ (σ : Type) [Draw.Source σ] [Draw.LawfulSource σ] (fuel : Nat) (source : σ),
      Ends (randomBeatWithin fuel length) source
        (fun program _ => BeatShape length program.cmds ∧ program.cmds.length % 2 = 1 ∧
          program.cmds.length ≤ 2 * max length.toNat 1 - 1)
        (fun e _ => Uncompleted e)) ∧
    (∀ (fuel : Nat) (draws : List Nat), draws.length < fuel →
      Ends (randomBeatWithin fuel length) (⟨draws, 0⟩ : Draw.Script) (fun _ _ => True)
        (fun e _ => ∃ dry, e = .exhausted dry)) ∧
    ∀ cmds, BeatShape length cmds →
      ∃ draws program, randomBeat length (⟨draws, 0⟩ : Draw.Script) = (.ok program, ⟨[], draws.length⟩) ∧
        program.cmds = cmds := by
  have hne : beatChoices ≠ [] := by decide
  refine ⟨?_, ?_, fun cmds h => h.exists_draws⟩
  · intro σ _ _ fuel source
    refine (ends_randomBeatWithin (affords_any hne) trivial).mono_done ?_
    intro program _ hshape
    exact ⟨hshape, hshape.length_odd, hshape.length_le⟩
  · intro fuel draws hfuel
    exact (ends_randomBeatWithin (affords_script hne) hfuel).mono_done fun _ _ _ => trivial

open scoped Host in
/-- Two commands are asked for, and a third one takes both values: `t sx ^`. -/
theorem randomBeat_range_pattern :
    BeatShape 2 [.var .frame, .var .screenX, .intOp .xor] ∧
    (∃ draws program, randomBeat 2 (⟨draws, 0⟩ : Draw.Script) = (.ok program, ⟨[], draws.length⟩) ∧
      program.cmds = [.var .frame, .var .screenX, .intOp .xor]) ∧
    Ends (randomBeatWithin 5 2) (⟨[0, 3, 1, 16], 0⟩ : Draw.Script)
      (fun program _ => BeatShape 2 program.cmds ∧ program.cmds.length % 2 = 1 ∧
        program.cmds.length ≤ 2 * max (2 : Int).toNat 1 - 1)
      (fun e _ => Uncompleted e) ∧
    Ends (randomBeatWithin 5 2) (⟨[0, 3, 1, 16], 0⟩ : Draw.Script) (fun _ _ => True)
      (fun e _ => ∃ dry, e = .exhausted dry) := by
  obtain ⟨hany, hscript, hdraws⟩ := randomBeat_range 2
  have hshape : BeatShape 2 [.var .frame, .var .screenX, .intOp .xor] := by decide
  exact ⟨hshape, hdraws _ hshape, hany Draw.Script 5 ⟨[0, 3, 1, 16], 0⟩, hscript 5 [0, 3, 1, 16] (by decide)⟩

end

end Evolution

end ProgramArt
