/-!
# Parts of a text

A text is cut at every occurrence of a separator. A text without one is a single part, and there is always one part
more than there are separators.
-/

namespace ProgramArt.Text

/-- The parts of a text between separators. -/
def parts {α : Type} [DecidableEq α] (separator : α) : List α → List (List α)
  | [] => [[]]
  | c :: rest =>
    if c = separator then [] :: parts separator rest
    else
      match parts separator rest with
      | part :: others => (c :: part) :: others
      | [] => [[c]]

theorem parts_ne_nil {α : Type} [DecidableEq α] (separator : α) (text : List α) :
    parts separator text ≠ [] := by
  cases text with
  | nil => simp [parts]
  | cons c rest =>
    rw [parts]
    split
    · simp
    · split <;> simp

end ProgramArt.Text
