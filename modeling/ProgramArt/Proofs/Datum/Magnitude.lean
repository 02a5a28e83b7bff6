import Mathlib.Algebra.Order.Field.Power
import Mathlib.Algebra.Order.Field.Rat
import Mathlib.Order.WithBot
import Mathlib.Tactic.Linarith
import Mathlib.Tactic.NormNum
import ProgramArt.Datum.Order

/-!
# Magnitudes as numbers

Magnitudes are compared by their values, so that they are ordered as numbers are, with an infinity at either end
(`Magnitude.less_iff`). Data that are numbers are compared by their magnitudes, and what is asked of a number without
one, which only NaN is, is denied (`Magnitude.asked`).
-/

namespace ProgramArt

namespace Magnitude

/-- The number of a magnitude, between two infinities. -/
def value : Magnitude → WithBot (WithTop ℚ)
  | negativeInfinity => ⊥
  | finite significand exponent => ((significand * (2 : ℚ) ^ exponent : ℚ) : WithTop ℚ)
  | positiveInfinity => (⊤ : WithTop ℚ)

/-- Bringing two numbers to a common exponent does not change their order. -/
theorem aligned_lt (a p b q : Int) :
    (aligned a p b q).1 < (aligned a p b q).2 ↔ (a * (2 : ℚ) ^ p : ℚ) < b * (2 : ℚ) ^ q := by
  have hscale : ∀ (significand exponent low : Int), low ≤ exponent →
      (significand * (2 : ℚ) ^ exponent : ℚ)
        = ((significand * (Nat.pow 2 (exponent - low).toNat : Nat) : Int) : ℚ) * (2 : ℚ) ^ low := by
    intro significand exponent low hlow
    have hpow : ((Nat.pow 2 (exponent - low).toNat : Nat) : ℚ) = (2 : ℚ) ^ (exponent - low) := by
      rw [Nat.pow_eq, Nat.cast_pow, ← zpow_natCast, Int.toNat_of_nonneg (by omega)]
      rfl
    push_cast
    rw [hpow, mul_assoc, ← zpow_add₀ (by norm_num), Int.sub_add_cancel]
  have hpos : (0 : ℚ) < (2 : ℚ) ^ min p q := zpow_pos (by norm_num) _
  rw [hscale a p (min p q) (Int.min_le_left p q), hscale b q (min p q) (Int.min_le_right p q),
    mul_lt_mul_iff_left₀ hpos, Int.cast_lt]
  rfl

/-- **Magnitudes are ordered by their numbers.** -/
theorem less_iff {a b : Magnitude} : a.less b = true ↔ a.value < b.value := by
  cases a with
  | negativeInfinity =>
    cases b with
    | negativeInfinity => exact iff_of_false Bool.false_ne_true (lt_irrefl _)
    | positiveInfinity => exact iff_of_true rfl (WithBot.bot_lt_coe _)
    | finite b q => exact iff_of_true rfl (WithBot.bot_lt_coe _)
  | positiveInfinity => cases b <;> simp [less, value]
  | finite a p =>
    cases b with
    | negativeInfinity => simp [less, value]
    | positiveInfinity =>
      refine iff_of_true rfl ?_
      exact WithBot.coe_lt_coe.mpr (WithTop.coe_lt_top _)
    | finite b q =>
      have haligned := aligned_lt a p b q
      simp only [less, value, decide_eq_true_eq, WithBot.coe_lt_coe, WithTop.coe_lt_coe]
      exact haligned

/-- What is asked of two magnitudes is denied where one of them is missing. -/
def asked (holds : Magnitude → Magnitude → Bool) : Option Magnitude → Option Magnitude → Bool
  | some a, some b => holds a b
  | _, _ => false

theorem less_finite (m n : Int) : (finite m 0).less (finite n 0) = decide (m < n) := by
  simp [less, aligned]

theorem same_finite (m n : Int) : (finite m 0).same (finite n 0) = (m == n) := by
  rw [same, less_finite, less_finite, Bool.eq_iff_iff]
  simp only [Bool.and_eq_true, Bool.not_eq_true', decide_eq_false_iff_not, beq_iff_eq]
  omega

theorem same_comm (a b : Magnitude) : a.same b = b.same a := Bool.and_comm _ _

end Magnitude

namespace Datum

variable {a b : Datum}

/-- Numbers are compared by their magnitudes. -/
theorem less?_of_isNumber (ha : a.isNumber = true) (hb : b.isNumber = true) :
    a.less? b = some (Magnitude.asked Magnitude.less a.magnitude? b.magnitude?) := by
  cases a with
  | bool _ | int _ | float _ | nan _ =>
    rw [less?, if_pos (by rw [hb]; rfl)]
    · rfl
    all_goals simp
  | _ => cases ha

theorem atMost?_of_isNumber (ha : a.isNumber = true) (hb : b.isNumber = true) :
    a.atMost? b = some (Magnitude.asked (fun x y => !y.less x) a.magnitude? b.magnitude?) := by
  cases a with
  | bool _ | int _ | float _ | nan _ =>
    rw [atMost?, if_pos (by rw [hb]; rfl)]
    · rfl
    all_goals simp
  | _ => cases ha

theorem same_of_isNumber (ha : a.isNumber = true) :
    a.same b = Magnitude.asked Magnitude.same a.magnitude? b.magnitude? := by
  cases a with
  | bool _ | int _ | float _ =>
    rw [same]
    rfl
  | nan _ =>
    rw [same]
    · rfl
    all_goals simp
  | _ => cases ha

/-- Whether a datum is NaN, with a mark or without. -/
def isNaN : Datum → Bool
  | float x => x.isNaN
  | nan _ => true
  | _ => false

theorem isNumber_of_magnitude? {x : Magnitude} (h : a.magnitude? = some x) : a.isNumber = true := by
  cases a with
  | bool _ | int _ | float _ => rfl
  | _ => cases h

/-- Data that have a magnitude are ordered by it. -/
theorem less?_eq {x y : Magnitude} (ha : a.magnitude? = some x) (hb : b.magnitude? = some y) :
    a.less? b = some (x.less y) := by
  rw [less?_of_isNumber (isNumber_of_magnitude? ha) (isNumber_of_magnitude? hb), ha, hb]
  rfl

end Datum

end ProgramArt
