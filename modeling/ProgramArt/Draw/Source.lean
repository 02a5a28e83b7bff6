/-!
# Sources of chance

Random generation and mutation draw from a `Source`. It gives two kinds of draws: a number in the unit interval, and a
whole number below a bound. A source may run dry. What has been drawn is gone also when the generation fails
afterwards, so the source is threaded through failures (`Draws`).
-/

namespace ProgramArt.Draw

/-- A source that has run dry, after the given number of draws. -/
structure Exhausted where
  used : Nat
deriving DecidableEq

/-- The report of a source that has run dry. -/
def Exhausted.message (e : Exhausted) : String :=
  s!"after {e.used} draws"

/-- A type of sources. -/
class Source (σ : Type) where
  /-- Draw a number that is at least zero and less than one. -/
  unit : σ → Except Exhausted Float × σ
  /-- Draw a whole number less than a positive bound. -/
  below : Nat → σ → Except Exhausted Nat × σ

/-- Computations that draw from a source of type `σ` and fail with an `ε`. -/
abbrev Draws (ε σ α : Type) := ExceptT ε (StateM σ) α

namespace Draws

variable {ε σ α : Type} [Source σ]

/-- Draw a number in the unit interval. -/
def unit (dry : Exhausted → ε) : Draws ε σ Float :=
  fun source =>
    match Source.unit source with
    | (.ok x, rest) => (.ok x, rest)
    | (.error e, rest) => (.error (dry e), rest)

/-- Draw a whole number less than a bound. -/
def below (dry : Exhausted → ε) (bound : Nat) : Draws ε σ Nat :=
  fun source =>
    match Source.below bound source with
    | (.ok n, rest) => (.ok n, rest)
    | (.error e, rest) => (.error (dry e), rest)

/-- Draw a member of a list, which is not empty. -/
def pick [Inhabited α] (dry : Exhausted → ε) (choices : List α) : Draws ε σ α := do
  let i ← below dry choices.length
  return choices.getD i default

end Draws

/-- A source that hands out the numbers of a list. -/
structure Script where
  rest : List Nat
  used : Nat := 0
deriving DecidableEq

namespace Script

/-- The next number of the list. -/
def next (script : Script) : Except Exhausted Nat × Script :=
  match script.rest with
  | [] => (.error ⟨script.used⟩, script)
  | value :: rest => (.ok value, ⟨rest, script.used + 1⟩)

/-- A number counts thousandths as a draw from the unit interval, and is taken modulo the bound as a
whole number. -/
instance : Source Script where
  unit script :=
    let (value, rest) := script.next
    (value.map fun v => (UInt64.ofNat (v % 1000)).toFloat / 1000.0, rest)
  below bound script :=
    let (value, rest) := script.next
    (value.map (· % bound), rest)

end Script

end ProgramArt.Draw
