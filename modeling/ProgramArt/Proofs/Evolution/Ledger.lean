import ProgramArt.Proofs.Draw.Draws
import ProgramArt.Proofs.Evolution.Mutation

/-!
# The ledger of a mutation

A mutation takes the members of a list one after the other. For each of them it draws a number, and if the number is
less than the chance and there is something to choose from, it draws the index of a replacement too. So what is drawn
for a member depends on what was drawn for those before it. The `Ledger` of a mutation holds the draws for each member
in its `Turn`, and it tells the outcome (`Ledger.mapM_eq_ok`, `Ledger.mapM_eq_error`). Every source makes a ledger,
until it runs dry and the turn of a member is `CutShort`.
-/

namespace ProgramArt.Evolution

open Draw

variable {σ α : Type} {chance : Float} {choices : α → List α}

/-- A member of a list is drawn by its index. -/
theorem drawFrom_of_below [Source σ] [Inhabited α] {list : List α} {source rest : σ} {n : Nat}
    (h : Source.below list.length source = (.ok n, rest)) :
    drawFrom list source = (.ok (list.getD n default), rest) := by
  refine bind_eq_ok.mpr ⟨n, rest, ?_, rfl⟩
  rw [Draws.below, h]

/-! ## Turns -/

/-- What is drawn for one member of a list: a number, and an index among its choices if it is replaced. -/
structure Turn (α : Type) where
  old : α
  number : Float
  index : Option Nat

namespace Turn

/-- What becomes of the member. -/
def new (choices : α → List α) (turn : Turn α) : α :=
  match turn.index with
  | none => turn.old
  | some n => (choices turn.old).getD n turn.old

/-- The draws in order. -/
def draws (choices : α → List α) (turn : Turn α) : List Drawn :=
  .unit turn.number :: turn.index.toList.map fun n => .below (choices turn.old).length n

/-- The turn goes by the rules: an index is drawn exactly if the number is less than the chance and there is something
to choose from, and it is the index of a choice. -/
structure Fair (chance : Float) (choices : α → List α) (turn : Turn α) : Prop where
  drawn : turn.index.isSome = true ↔ turn.number < chance ∧ choices turn.old ≠ []
  within : ∀ n ∈ turn.index, n < (choices turn.old).length

theorem new_of_none {turn : Turn α} (h : turn.index = none) : turn.new choices = turn.old := by
  rw [new, h]

theorem Fair.index_eq_none {turn : Turn α} (h : turn.Fair chance choices)
    (hnot : ¬ (turn.number < chance ∧ choices turn.old ≠ [])) : turn.index = none := by
  rw [← Option.not_isSome_iff_eq_none]
  intro hdrawn
  exact hnot (h.drawn.mp hdrawn)

/-- What is not selected is kept. -/
theorem Fair.new_of_not_lt {turn : Turn α} (h : turn.Fair chance choices) (hnumber : ¬ turn.number < chance) :
    turn.new choices = turn.old := by
  apply new_of_none
  apply h.index_eq_none
  intro hselected
  exact hnumber hselected.1

/-- A member is kept, or it is replaced by one of its choices. -/
theorem Fair.new_eq_or_mem {turn : Turn α} (h : turn.Fair chance choices) :
    turn.new choices = turn.old ∨ turn.new choices ∈ choices turn.old := by
  cases hindex : turn.index with
  | none => exact .inl (new_of_none hindex)
  | some n =>
    right
    have hlt := h.within n hindex
    rw [new, hindex]
    dsimp only
    rw [List.getD_eq_getElem _ _ hlt]
    exact List.getElem_mem hlt

theorem countP_isUnit_draws (turn : Turn α) : (turn.draws choices).countP Drawn.isUnit = 1 := by
  unfold draws
  cases turn.index <;> rfl

theorem Fair.countP_not_isUnit_draws {turn : Turn α} (h : turn.Fair chance choices) :
    (turn.draws choices).countP (fun drawn => !drawn.isUnit)
      = if turn.number < chance ∧ choices turn.old ≠ [] then 1 else 0 := by
  unfold draws
  cases hindex : turn.index with
  | none =>
    rw [if_neg fun hdrawn => by simpa [hindex] using h.drawn.mpr hdrawn]
    rfl
  | some n =>
    rw [if_pos (h.drawn.mp (by rw [hindex]; rfl))]
    rfl

end Turn

/-! ## Ledgers -/

variable [Source σ]

/-- The ledger of a mutation: a fair turn for each member of the list in its order, with all that a source hands
out. -/
structure Ledger (chance : Float) (choices : α → List α) (items : List α) (source : σ) (turns : List (Turn α))
    (rest : σ) : Prop where
  items : turns.map Turn.old = items
  fair : ∀ turn ∈ turns, turn.Fair chance choices
  draws : HandsOut source (turns.flatMap (Turn.draws choices)) rest

theorem Ledger.nil (chance : Float) (choices : α → List α) (source : σ) : Ledger chance choices [] source [] source :=
  ⟨rfl, nofun, .nil source⟩

theorem Ledger.cons {turn : Turn α} {turns : List (Turn α)} {items : List α} {source next rest : σ}
    (hfair : turn.Fair chance choices) (hdraws : HandsOut source (turn.draws choices) next)
    (h : Ledger chance choices items next turns rest) :
    Ledger chance choices (turn.old :: items) source (turn :: turns) rest where
  items := by rw [List.map_cons, h.items]
  fair := List.forall_mem_cons.mpr ⟨hfair, h.fair⟩
  draws := HandsOut.append_iff.mpr ⟨next, hdraws, h.draws⟩

/-- A ledger in two parts: what is left of the source after the first is what the second starts with. -/
theorem Ledger.of_append {first second : List (Turn α)} {items : List α} {source rest : σ}
    (h : Ledger chance choices items source (first ++ second) rest) :
    ∃ mid, Ledger chance choices (first.map Turn.old) source first mid
      ∧ Ledger chance choices (second.map Turn.old) mid second rest := by
  obtain ⟨-, hfair, hdraws⟩ := h
  rw [List.forall_mem_append] at hfair
  rw [List.flatMap_append] at hdraws
  obtain ⟨mid, hfirst, hsecond⟩ := HandsOut.append_iff.mp hdraws
  exact ⟨mid, ⟨rfl, hfair.1, hfirst⟩, ⟨rfl, hfair.2, hsecond⟩⟩

/-- The turn of a member is cut short because the source runs dry: at its number, or at the index behind it. -/
inductive CutShort (chance : Float) (choices : α → List α) (item : α) (source : σ) : Prop where
  | number {dry : Exhausted} {rest : σ} (h : Source.unit source = (.error dry, rest))
  | index {x : Float} {next rest : σ} {dry : Exhausted} (h : Source.unit source = (.ok x, next))
      (hselected : x < chance) (hchoices : choices item ≠ [])
      (hdry : Source.below (choices item).length next = (.error dry, rest))

theorem not_cutShort [EndlessSource σ] {item : α} {source : σ} : ¬ CutShort chance choices item source := by
  rintro (⟨h⟩ | @⟨_, next, _, _, _, _, _, hdry⟩)
  · obtain ⟨x, rest, hunit⟩ := EndlessSource.exists_unit source
    rw [hunit] at h
    cases h
  · obtain ⟨n, rest, hbelow⟩ := EndlessSource.exists_below (choices item).length next
    rw [hbelow] at hdry
    cases hdry

/-- A member has its turn, unless the source runs dry. -/
theorem exists_turn_or_cutShort [LawfulSource σ] (chance : Float) (choices : α → List α) (item : α) (source : σ) :
    (∃ (turn : Turn α) (rest : σ),
      turn.old = item ∧ turn.Fair chance choices ∧ HandsOut source (turn.draws choices) rest)
    ∨ CutShort chance choices item source := by
  rcases hunit : Source.unit source with ⟨dry | x, next⟩
  · exact .inr (.number hunit)
  by_cases hdrawn : x < chance ∧ choices item ≠ []
  · rcases hbelow : Source.below (choices item).length next with ⟨dry | n, rest⟩
    · exact .inr (.index hunit hdrawn.1 hdrawn.2 hbelow)
    have hlt := LawfulSource.below_lt (List.length_pos_of_ne_nil hdrawn.2) hbelow
    refine .inl ⟨⟨item, x, some n⟩, rest, rfl, ⟨⟨fun _ => hdrawn, fun _ => rfl⟩, ?_⟩, ?_⟩
    · rintro m ⟨⟩
      exact hlt
    · exact .consUnit hunit (.consBelow hbelow (.nil rest))
  · exact .inl ⟨⟨item, x, none⟩, next, rfl, ⟨⟨nofun, fun h => absurd h hdrawn⟩, nofun⟩, .consUnit hunit (.nil next)⟩

/-- **Every source makes a ledger** for a list, or for the members before the one at which it runs dry. -/
theorem exists_ledger_or_cutShort [LawfulSource σ] (chance : Float) (choices : α → List α) (items : List α)
    (source : σ) :
    ∃ before turns rest, Ledger chance choices before source turns rest
      ∧ (before = items ∨ ∃ item after, items = before ++ item :: after ∧ CutShort chance choices item rest) := by
  induction items generalizing source with
  | nil => exact ⟨[], [], source, .nil chance choices source, .inl rfl⟩
  | cons item items ih =>
    obtain ⟨turn, next, rfl, hfair, hdraws⟩ | hdry := exists_turn_or_cutShort chance choices item source
    · obtain ⟨before, turns, rest, hledger, hend⟩ := ih next
      refine ⟨turn.old :: before, turn :: turns, rest, .cons hfair hdraws hledger, hend.imp (congrArg _) ?_⟩
      rintro ⟨item, after, rfl, hdry⟩
      exact ⟨item, after, rfl, hdry⟩
    · exact ⟨[], [], source, .nil chance choices source, .inr ⟨item, items, rfl, hdry⟩⟩

/-- **An endless source makes a ledger for every list.** -/
theorem exists_ledger [LawfulSource σ] [EndlessSource σ] (chance : Float) (choices : α → List α) (items : List α)
    (source : σ) : ∃ turns rest, Ledger chance choices items source turns rest := by
  obtain ⟨before, turns, rest, hledger, rfl | ⟨_, _, _, hdry⟩⟩ := exists_ledger_or_cutShort chance choices items source
  · exact ⟨turns, rest, hledger⟩
  · exact (not_cutShort hdry).elim

namespace Ledger

variable {items : List α} {source rest : σ} {turns : List (Turn α)}

/-- Without a chance nothing is selected. -/
theorem not_lt_of_idle [NonnegSource σ] (h : Ledger chance choices items source turns rest) (hidle : ¬ 0.0 < chance)
    {turn : Turn α} (hturn : turn ∈ turns) : ¬ turn.number < chance := by
  apply Binary64.not_lt_of_nonneg _ hidle
  apply h.draws.zero_le
  exact List.mem_flatMap.mpr ⟨turn, hturn, List.mem_cons_self⟩

/-- Without a chance nothing is replaced. -/
theorem map_new_of_idle [NonnegSource σ] (h : Ledger chance choices items source turns rest)
    (hidle : ¬ 0.0 < chance) : turns.map (Turn.new choices) = items := by
  rw [← h.items]
  apply List.map_congr_left
  intro turn hturn
  exact (h.fair turn hturn).new_of_not_lt (h.not_lt_of_idle hidle hturn)

/-! ## How much is drawn -/

/-- One number is drawn for each member. -/
theorem count_isUnit (h : Ledger chance choices items source turns rest) :
    (turns.flatMap (Turn.draws choices)).countP Drawn.isUnit = items.length := by
  obtain ⟨rfl, -, -⟩ := h
  induction turns with
  | nil => rfl
  | cons turn turns ih =>
    rw [List.flatMap_cons, List.countP_append, ih, turn.countP_isUnit_draws, List.map_cons, List.length_cons,
      Nat.add_comm]

/-- One index is drawn for each member that is selected and has choices. -/
theorem count_not_isUnit (h : Ledger chance choices items source turns rest) :
    (turns.flatMap (Turn.draws choices)).countP (fun drawn => !drawn.isUnit)
      = turns.countP fun turn => decide (turn.number < chance ∧ choices turn.old ≠ []) := by
  obtain ⟨-, hfair, -⟩ := h
  induction turns with
  | nil => rfl
  | cons turn turns ih =>
    rw [List.forall_mem_cons] at hfair
    rw [List.flatMap_cons, List.countP_append, ih hfair.2, hfair.1.countP_not_isUnit_draws, List.countP_cons,
      Nat.add_comm]
    simp only [decide_eq_true_eq]

/-! ## The outcome -/

section

variable {step : α → Evolving σ α} {refused : Turn α → Prop} {failure : α → EvolutionError}
  (hstep : ∀ {turn : Turn α} {source rest : σ}, turn.Fair chance choices → ¬ refused turn →
    HandsOut source (turn.draws choices) rest → step turn.old source = (.ok (turn.new choices), rest))

include hstep

/-- **A mutation in which no turn is refused** comes to what becomes of the members. -/
theorem mapM_eq_ok (h : Ledger chance choices items source turns rest) (hrefused : ∀ turn ∈ turns, ¬ refused turn) :
    items.mapM step source = (.ok (turns.map (Turn.new choices)), rest) := by
  obtain ⟨rfl, hfair, hdraws⟩ := h
  induction turns generalizing source with
  | nil =>
    cases hdraws
    rfl
  | cons turn turns ih =>
    rw [List.forall_mem_cons] at hfair hrefused
    obtain ⟨next, hfirst, hlater⟩ := HandsOut.append_iff.mp hdraws
    rw [List.map_cons, List.mapM_cons]
    refine bind_eq_ok.mpr ⟨turn.new choices, next, hstep hfair.1 hrefused.1 hfirst, ?_⟩
    exact bind_eq_ok.mpr ⟨_, rest, ih hrefused.2 hfair.2 hlater, rfl⟩

/-- A member that fails after turns of which none is refused. -/
theorem mapM_eq_stop (h : Ledger chance choices items source turns rest) (hrefused : ∀ turn ∈ turns, ¬ refused turn)
    {item : α} {after : List α} {e : EvolutionError} {left : σ} (hstop : step item rest = (.error e, left)) :
    (items ++ item :: after).mapM step source = (.error e, left) := by
  rw [List.mapM_append, List.mapM_cons]
  refine bind_eq_error.mpr (.inr ⟨_, rest, h.mapM_eq_ok hstep hrefused, ?_⟩)
  exact bind_eq_error.mpr (.inl (bind_eq_error.mpr (.inl hstop)))

/-- **A mutation in which a turn is refused** fails at the first one. What the ledger holds after it is never drawn. -/
theorem mapM_eq_error
    (hrefuse : ∀ {turn : Turn α} {source rest : σ}, turn.Fair chance choices → refused turn →
      HandsOut source (turn.draws choices) rest → step turn.old source = (.error (failure turn.old), rest))
    {before after : List (Turn α)} {turn : Turn α}
    (h : Ledger chance choices items source (before ++ turn :: after) rest)
    (hbefore : ∀ earlier ∈ before, ¬ refused earlier) (hturn : refused turn) :
    ∃ left, items.mapM step source = (.error (failure turn.old), left) := by
  obtain ⟨mid, hpassed, hlater⟩ := h.of_append
  obtain ⟨left, hdraws, -⟩ := HandsOut.append_iff.mp hlater.draws
  have hstop := hrefuse (hlater.fair turn List.mem_cons_self) hturn hdraws
  refine ⟨left, ?_⟩
  rw [← h.items, List.map_append, List.map_cons]
  exact hpassed.mapM_eq_stop hstep hbefore hstop

end

end Ledger

/-! ## Scripts -/

/-- A script for one member. With the chance one it is selected by a zero, and its replacement is named by its
index. -/
theorem exists_turn_script [DecidableEq α] {old new : α} (h : choices old = [] ∧ new = old ∨ new ∈ choices old) :
    ∃ (front : List Nat) (turn : Turn α), turn.old = old ∧ turn.Fair 1.0 choices ∧ turn.new choices = new
      ∧ ∀ values used, HandsOut (⟨front ++ values, used⟩ : Script) (turn.draws choices)
        ⟨values, used + front.length⟩ := by
  have hselected : (UInt64.ofNat (0 % 1000)).toFloat / 1000.0 < (1.0 : Float) := by decide +kernel
  rcases h with ⟨hnone, rfl⟩ | hmem
  · refine ⟨[0], ⟨new, (UInt64.ofNat (0 % 1000)).toFloat / 1000.0, none⟩, rfl, ⟨?_, nofun⟩, rfl, ?_⟩
    · exact ⟨nofun, fun h => absurd hnone h.2⟩
    · intro values used
      exact .consUnit rfl (.nil _)
  · have hlt : (choices old).idxOf new < (choices old).length := List.idxOf_lt_length_of_mem hmem
    refine ⟨[0, (choices old).idxOf new],
      ⟨old, (UInt64.ofNat (0 % 1000)).toFloat / 1000.0, some ((choices old).idxOf new)⟩, rfl, ⟨?_, ?_⟩, ?_, ?_⟩
    · exact ⟨fun _ => ⟨hselected, List.ne_nil_of_mem hmem⟩, fun _ => rfl⟩
    · rintro n ⟨⟩
      exact hlt
    · show (choices old).getD ((choices old).idxOf new) old = new
      rw [List.getD_eq_getElem _ _ hlt, List.getElem_idxOf]
    · intro values used
      have hindex : Source.below (choices old).length (⟨(choices old).idxOf new :: values, used + 1⟩ : Script)
          = (.ok ((choices old).idxOf new), ⟨values, used + 2⟩) := by
        show (Except.ok ((choices old).idxOf new % (choices old).length), _) = _
        rw [Nat.mod_eq_of_lt hlt]
      exact .consUnit rfl (.consBelow hindex (.nil _))

/-- **A script for every choice.** With the chance one a script makes any replacements, and it is used up by them. -/
theorem exists_ledger_script [DecidableEq α] {items news : List α}
    (h : List.Forall₂ (fun old new => choices old = [] ∧ new = old ∨ new ∈ choices old) items news) (used : Nat) :
    ∃ values turns, Ledger 1.0 choices items (⟨values, used⟩ : Script) turns ⟨[], used + values.length⟩
      ∧ turns.map (Turn.new choices) = news := by
  induction h generalizing used with
  | nil => exact ⟨[], [], .nil 1.0 choices _, rfl⟩
  | cons hnew _ ih =>
    obtain ⟨front, turn, rfl, hfair, rfl, hdraws⟩ := exists_turn_script hnew
    obtain ⟨values, turns, hledger, hnews⟩ := ih (used + front.length)
    refine ⟨front ++ values, turn :: turns, ?_, ?_⟩
    · rw [List.length_append, ← Nat.add_assoc]
      exact .cons hfair (hdraws values used) hledger
    · rw [List.map_cons, hnews]

end ProgramArt.Evolution
