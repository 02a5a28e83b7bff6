import Mathlib.Data.List.GetD
import ProgramArt.Draw.Generator
import ProgramArt.Proofs.Outcome

/-!
# Lawful sources

A source is lawful if a whole number that is drawn below a bound lies below it. All sources at hand are lawful, also
one that runs dry. From a `LawfulSource` a member of a list is drawn, never anything else (`ends_pick`).
-/

namespace ProgramArt.Draw

/-- A source whose whole numbers lie below the bound. -/
class LawfulSource (σ : Type) [Source σ] : Prop where
  below_lt : ∀ {bound n : Nat} {source rest : σ}, 0 < bound → Source.below bound source = (.ok n, rest) →
    n < bound

instance : LawfulSource Script where
  below_lt := by
    intro bound n source rest hpos h
    change ((source.next.1.map (· % bound)), source.next.2) = _ at h
    rcases hnext : source.next with ⟨e | value, rest'⟩
    · rw [hnext] at h
      cases h
    · rw [hnext] at h
      cases h
      exact Nat.mod_lt value hpos

/-- What the twister gives lies below the bound, also when its tries are used up. -/
theorem Twister.belowFrom_lt {bound : Nat} (hpos : 0 < bound) (bits tries : Nat) (twister : Twister) :
    (belowFrom bound bits tries twister).1 < bound := by
  induction tries generalizing twister with
  | zero =>
    -- the last try is brought into range
    exact Nat.mod_lt _ hpos
  | succ tries ih =>
    unfold belowFrom
    dsimp only
    split
    · assumption
    · exact ih _

theorem Twister.below_lt {bound : Nat} (hpos : 0 < bound) (twister : Twister) :
    (twister.below bound).1 < bound :=
  belowFrom_lt hpos _ _ twister

instance : LawfulSource Twister where
  below_lt := by
    intro bound n source rest hpos h
    change (Except.ok (source.below bound).1, (source.below bound).2) = _ at h
    injection h with hvalue
    injection hvalue with hvalue
    rw [← hvalue]
    exact source.below_lt hpos

instance : LawfulSource Generator where
  below_lt := by
    intro bound n source rest hpos h
    cases source with
    | twister source =>
      change (Except.ok (source.below bound).1, Generator.twister (source.below bound).2) = _ at h
      injection h with hvalue
      injection hvalue with hvalue
      rw [← hvalue]
      exact source.below_lt hpos
    | script source =>
      change ((Source.below bound source).1, Generator.script (Source.below bound source).2) = _ at h
      cases hdraw : Source.below bound source with
      | mk outcome rest' =>
        rw [hdraw] at h
        cases h
        exact LawfulSource.below_lt hpos hdraw

variable {ε σ α : Type} [Source σ]

theorem ends_unit (dry : Exhausted → ε) (source : σ) :
    Ends (Draws.unit dry) source (fun _ _ => True) (fun e _ => ∃ x, e = dry x) := by
  constructor
  unfold Draws.unit
  rcases Source.unit source with ⟨x | x, rest⟩
  · exact ⟨x, rfl⟩
  · trivial

variable [LawfulSource σ]

/-- A whole number below a bound is drawn, or the source runs dry. -/
theorem ends_below (dry : Exhausted → ε) {bound : Nat} (hpos : 0 < bound) (source : σ) :
    Ends (Draws.below dry bound) source (fun n _ => n < bound) (fun e _ => ∃ x, e = dry x) := by
  constructor
  unfold Draws.below
  rcases hdraw : Source.below bound source with ⟨x | n, rest⟩
  · exact ⟨x, rfl⟩
  · exact LawfulSource.below_lt hpos hdraw

/-- **A member of the list is drawn.** -/
theorem ends_pick [Inhabited α] (dry : Exhausted → ε) {choices : List α} (hne : choices ≠ []) (source : σ) :
    Ends (Draws.pick dry choices) source (fun a _ => a ∈ choices) (fun e _ => ∃ x, e = dry x) := by
  refine (ends_below dry (List.length_pos_of_ne_nil hne) source).bind ?_
  intro n rest hlt
  refine ends_pure ?_
  rw [List.getD_eq_getElem _ _ hlt]
  exact List.getElem_mem hlt

end ProgramArt.Draw
