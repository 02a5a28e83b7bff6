import ProgramArt.Proofs.Draw.Lawful
import ProgramArt.Proofs.Number.Bounds

/-!
# Draws one after the other

The numbers that are drawn are never negative (`NonnegSource`), and a twister never runs dry (`EndlessSource`), other
than a script. What a source hands out one after the other is a list of draws, and a source is left in the end:
`HandsOut`.
-/

namespace ProgramArt.Draw

/-! ## Sources -/

/-- A source whose numbers are not negative. -/
class NonnegSource (σ : Type) [Source σ] : Prop where
  zero_le_unit : ∀ {x : Float} {source rest : σ}, Source.unit source = (.ok x, rest) → 0.0 ≤ x

theorem zero_le_quotient (n : UInt64) {y : Float} {mantissa : Nat} {exponent : Int} {hpos : 0 < mantissa}
    (h : y.toModel.unpack = .finite .positive mantissa exponent hpos) : 0.0 ≤ n.toFloat / y := by
  have hy : Binary64.Unsigned y.toModel.unpack := by
    rw [h]
    exact .finite mantissa exponent hpos
  exact Binary64.zero_le_of_unsigned (Binary64.unsigned_div (Binary64.unsigned_toFloat n) hy)
    (Binary64.isNaN_div (Binary64.isNaN_toFloat n) h)

instance : NonnegSource Script where
  zero_le_unit := by
    intro x source rest h
    change (source.next.1.map fun v => (UInt64.ofNat (v % 1000)).toFloat / 1000.0, source.next.2) = _ at h
    rcases hnext : source.next with ⟨e | value, rest'⟩
    · rw [hnext] at h
      cases h
    · rw [hnext] at h
      cases h
      exact zero_le_quotient _ rfl

theorem Twister.zero_le_unit (twister : Twister) : 0.0 ≤ twister.unit.1 :=
  zero_le_quotient _ rfl

instance : NonnegSource Twister where
  zero_le_unit := by
    intro x source rest h
    change (Except.ok source.unit.1, source.unit.2) = _ at h
    injection h with hvalue
    injection hvalue with hvalue
    rw [← hvalue]
    exact source.zero_le_unit

instance : NonnegSource Generator where
  zero_le_unit := by
    intro x source rest h
    cases source with
    | twister source =>
      change (Except.ok source.unit.1, Generator.twister source.unit.2) = _ at h
      injection h with hvalue
      injection hvalue with hvalue
      rw [← hvalue]
      exact source.zero_le_unit
    | script source =>
      change ((Source.unit source).1, Generator.script (Source.unit source).2) = _ at h
      cases hdraw : Source.unit source with
      | mk outcome rest' =>
        rw [hdraw] at h
        cases h
        exact NonnegSource.zero_le_unit hdraw

/-- A source that never runs dry. -/
class EndlessSource (σ : Type) [Source σ] : Prop where
  exists_unit : ∀ source : σ, ∃ x rest, Source.unit source = (.ok x, rest)
  exists_below : ∀ (bound : Nat) (source : σ), ∃ n rest, Source.below bound source = (.ok n, rest)

instance : EndlessSource Twister where
  exists_unit source := ⟨source.unit.1, source.unit.2, rfl⟩
  exists_below bound source := ⟨(source.below bound).1, (source.below bound).2, rfl⟩

/-! ## Lists of draws -/

/-- One draw: a number of the unit interval, or a whole number below a bound. -/
inductive Drawn where
  | unit (x : Float)
  | below (bound n : Nat)

def Drawn.isUnit : Drawn → Bool
  | unit _ => true
  | below _ _ => false

variable {σ : Type} [Source σ]

/-- A source hands out draws one after the other, and what is left of it then. -/
inductive HandsOut : σ → List Drawn → σ → Prop where
  | nil (source : σ) : HandsOut source [] source
  | consUnit {source next rest : σ} {x : Float} {draws : List Drawn} (h : Source.unit source = (.ok x, next))
      (hrest : HandsOut next draws rest) : HandsOut source (.unit x :: draws) rest
  | consBelow {source next rest : σ} {bound n : Nat} {draws : List Drawn}
      (h : Source.below bound source = (.ok n, next))
      (hrest : HandsOut next draws rest) : HandsOut source (.below bound n :: draws) rest

namespace HandsOut

variable {source rest : σ}

theorem append_iff {first second : List Drawn} :
    HandsOut source (first ++ second) rest ↔ ∃ mid, HandsOut source first mid ∧ HandsOut mid second rest := by
  constructor
  · intro h
    induction first generalizing source with
    | nil => exact ⟨source, .nil source, h⟩
    | cons drawn first ih =>
      cases h with
      | consUnit hdraw hrest =>
        obtain ⟨mid, hfirst, hsecond⟩ := ih hrest
        exact ⟨mid, .consUnit hdraw hfirst, hsecond⟩
      | consBelow hdraw hrest =>
        obtain ⟨mid, hfirst, hsecond⟩ := ih hrest
        exact ⟨mid, .consBelow hdraw hfirst, hsecond⟩
  · rintro ⟨mid, hfirst, hsecond⟩
    induction hfirst with
    | nil => exact hsecond
    | consUnit hdraw _ ih => exact .consUnit hdraw (ih hsecond)
    | consBelow hdraw _ ih => exact .consBelow hdraw (ih hsecond)

/-- The numbers that a source hands out are not negative. -/
theorem zero_le [NonnegSource σ] {draws : List Drawn} (h : HandsOut source draws rest) {x : Float}
    (hx : .unit x ∈ draws) : 0.0 ≤ x := by
  induction h with
  | nil => cases hx
  | consUnit hdraw _ ih =>
    rcases List.mem_cons.mp hx with hfirst | hlater
    · cases hfirst
      exact NonnegSource.zero_le_unit hdraw
    · exact ih hlater
  | consBelow hdraw _ ih =>
    rcases List.mem_cons.mp hx with hfirst | hlater
    · cases hfirst
    · exact ih hlater

end HandsOut

end ProgramArt.Draw
