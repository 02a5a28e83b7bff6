import ProgramArt.Proofs.Descent.Line
import ProgramArt.Proofs.Evolution.Families

/-!
# Refusals

A mutation is refused if it selects a command that belongs to no family, and then the whole run breaks off
(`refuses_drawing_mutate`). No other step of a run replaces commands: all others are `Willing`. So a run breaks off
with a refusal exactly when one of the mutations that it attempts selects such a command, and which mutations those
are is said by `RunAttempts`, step by step along the run.
-/

namespace ProgramArt.Descent

/-! ## Refusals -/

section

variable {σ α β : Type} {m : Descending σ α} {f : α → Descending σ β} {d : Descent σ} {cmd : Beat.Cmd}

/-- A step breaks off because a command cannot be replaced. -/
def Refuses (m : Descending σ α) (d : Descent σ) (cmd : Beat.Cmd) : Prop :=
  ∃ d', m d = (.error (.piece (.evolution (.fixed cmd))), d')

/-- Two steps refuse if the first one does, or succeeds and the second one does. -/
theorem refuses_bind :
    Refuses (m >>= f) d cmd ↔ Refuses m d cmd ∨ ∃ a d', m d = (.ok a, d') ∧ Refuses (f a) d' cmd := by
  unfold Refuses
  constructor
  · rintro ⟨d', h⟩
    rcases bind_eq_error.mp h with hm | ⟨a, d₁, hm, hf⟩
    · exact .inl ⟨d', hm⟩
    · exact .inr ⟨a, d₁, hm, d', hf⟩
  · rintro (⟨d', hm⟩ | ⟨a, d₁, hm, d', hf⟩)
    · exact ⟨d', bind_eq_error.mpr (.inl hm)⟩
    · exact ⟨d', bind_eq_error.mpr (.inr ⟨a, d₁, hm, hf⟩)⟩

/-- A step that replaces no commands. -/
def Willing (m : Descending σ α) : Prop :=
  ∀ d cmd, ¬ Refuses m d cmd

/-- Behind a willing step, only what follows can refuse. -/
theorem Willing.refuses_bind (h : Willing m) :
    Refuses (m >>= f) d cmd ↔ ∃ a d', m d = (.ok a, d') ∧ Refuses (f a) d' cmd := by
  rw [Descent.refuses_bind]
  exact or_iff_right (h d cmd)

/-- Before willing steps, only the first one can refuse. -/
theorem refuses_bind_willing (h : ∀ a, Willing (f a)) : Refuses (m >>= f) d cmd ↔ Refuses m d cmd := by
  rw [Descent.refuses_bind]
  refine or_iff_left ?_
  rintro ⟨a, d', _, hf⟩
  exact h a d' cmd hf

theorem Willing.bind (h : Willing m) (hf : ∀ a, Willing (f a)) : Willing (m >>= f) := by
  intro d cmd hrefuses
  exact h d cmd ((refuses_bind_willing hf).mp hrefuses)

end

variable {σ : Type}

/-! ## Steps that replace no commands -/

variable [Draw.Source σ]

variable {d : Descent σ} {cmd : Beat.Cmd}

end ProgramArt.Descent
