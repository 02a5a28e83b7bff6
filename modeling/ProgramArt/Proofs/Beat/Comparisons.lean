import ProgramArt.Beat.View
import ProgramArt.Proofs.Beat.Safety
import ProgramArt.Proofs.Number.Rounding

/-!
# Comparing integers with doubles

Two integers are compared as they are, and so are two doubles, but of an integer and a double the double views are
compared, in which integers of more than fifty-three bits are rounded. Rounding is monotone (`Value.viewed_mono`), so
the order is transitive all the same (`Value.against_lt_trans`) and never contradicts the order of numbers; it only
leaves some numbers unordered that are not equal. Equality asks in addition that the double is truncated to the
integer, which undoes the rounding: an integer equals a double exactly if they are one number (`Value.equated_iff`).
The only exception is the greatest word, because the double above it is clamped to it. `comparisons_consistent` has
all of this together.
-/

namespace ProgramArt.Beat

open Word64

/-! ## Values as numbers -/

namespace Value

/-- Whether a value is NaN. -/
def isNaN : Value → Bool
  | int _ => false
  | float x => x.isNaN

/-- The number of a value, between two infinities. -/
def number : Value → WithBot (WithTop ℚ)
  | int n => ((n : ℚ) : WithTop ℚ)
  | float x => Binary64.value x

/-- The number of the double view of a value. -/
def viewed : Value → WithBot (WithTop ℚ)
  | int n => Binary64.value (Binary64.nearest n)
  | float x => Binary64.value x

/-- Taking the double view keeps the order, although it may make numbers equal. -/
theorem viewed_mono {v w : Value} (h : v.number ≤ w.number) : v.viewed ≤ w.viewed := by
  match v, w with
  | int m, int n =>
    have hle : (m : ℚ) ≤ n := WithTop.coe_le_coe.mp (WithBot.coe_le_coe.mp h)
    exact Binary64.value_nearest_mono hle
  | int m, float y => exact Binary64.value_nearest_le h
  | float x, int n => exact Binary64.le_value_nearest h
  | float x, float y => exact h

/-- What stands for a value in a comparison with another: two integers are compared as they are, and
otherwise the double views are. -/
def against : Value → Value → WithBot (WithTop ℚ)
  | int m, int _ => (int m).number
  | v, _ => v.viewed

/-- A value that is less is less as a number. -/
theorem number_lt_of_against_lt {v w : Value} (h : v.against w < w.against v) : v.number < w.number := by
  match v, w with
  | int m, int n => exact h
  | int _, float _ | float _, int _ | float _, float _ =>
    exact lt_of_not_ge fun hle => not_lt_of_ge (viewed_mono hle) h

/-- A value that is less is not greater after rounding. -/
theorem viewed_le_of_against_lt {v w : Value} (h : v.against w < w.against v) : v.viewed ≤ w.viewed :=
  viewed_mono (number_lt_of_against_lt h).le

/-- The order of values is transitive: with a double at either end one of the two steps is strict in double
views, and the other is not lost in them. -/
theorem against_lt_trans {u v w : Value} (huv : u.against v < v.against u) (hvw : v.against w < w.against v) :
    u.against w < w.against u := by
  match u, w with
  | int m, int n => exact (number_lt_of_against_lt huv).trans (number_lt_of_against_lt hvw)
  | int m, float y =>
    have hstrict : v.viewed < (float y).viewed := by cases v <;> exact hvw
    exact (viewed_le_of_against_lt huv).trans_lt hstrict
  | float x, int _ | float x, float _ =>
    have hstrict : (float x).viewed < v.viewed := by cases v <;> exact huv
    exact hstrict.trans_le (viewed_le_of_against_lt hvw)

/-! ## Equality -/

/-- What stands for a value where equality is asked: the greatest word is mistaken for the double above it. -/
def equated : Value → WithBot (WithTop ℚ)
  | int n => (((if n = maxValue then 9223372036854775808 else n : Int) : ℚ) : WithTop ℚ)
  | float x => Binary64.value x

theorem value_aboveWords :
    Binary64.value 9223372036854775808.0 = (((9223372036854775808 : Int) : ℚ) : WithTop ℚ) := by
  have hparts : Binary64.parts 9223372036854775808.0 = .finite false (2 ^ 52) 11 := by decide
  rw [Binary64.value_of_finite hparts]
  norm_num [Binary64.scaled]

theorem nearest_maxValue : Binary64.nearest maxValue = 9223372036854775808.0 := by
  have hview : Binary64.ofInt? maxValue = some 9223372036854775808.0 := by decide
  rw [Binary64.ofInt?_eq_nearest (by decide)] at hview
  exact Option.some.inj hview

theorem value_nearest_minValue :
    Binary64.value (Binary64.nearest minValue) = ((minValue : ℚ) : WithTop ℚ) := by
  have hparts : Binary64.parts (-9223372036854775808.0) = .finite true (2 ^ 52) 11 := by decide
  refine Binary64.value_nearest ((Binary64.value_of_finite hparts).trans ?_)
  norm_num [Binary64.scaled, minValue]

/-- The integer view of a finite double is what is left without its fraction, clamped to the words. -/
theorem toInt_of_finite {y : Float} {negative : Bool} {mantissa : Nat} {exponent : Int}
    (h : Binary64.parts y = .finite negative mantissa exponent) :
    (float y).toInt = max minValue (min maxValue (Binary64.truncateParts negative mantissa exponent)) := by
  rw [toInt, h]

/-- Words are rounded to doubles that are no farther out than the ends of their range. -/
theorem value_nearest_bounds {m : Int} (h : IsWord m) :
    ((minValue : ℚ) : WithTop ℚ) ≤ Binary64.value (Binary64.nearest m)
      ∧ Binary64.value (Binary64.nearest m) ≤ (((9223372036854775808 : Int) : ℚ) : WithTop ℚ) := by
  constructor
  · rw [← value_nearest_minValue]
    exact Binary64.value_nearest_mono (by exact_mod_cast h.1)
  · rw [← value_aboveWords, ← nearest_maxValue]
    exact Binary64.value_nearest_mono (by exact_mod_cast h.2)

/-- A word that is rounded to a double and that the double is truncated to stands for it, the greatest word
for the double above it. -/
theorem equated_of_views {m : Int} {y : Float} (hword : IsWord m)
    (hview : Binary64.value (Binary64.nearest m) = Binary64.value y) (hint : m = (float y).toInt) :
    (int m).equated = (float y).equated := by
  obtain ⟨hlow, hhigh⟩ := value_nearest_bounds hword
  rw [hview] at hlow hhigh
  cases hparts : Binary64.parts y with
  | nan =>
    rw [Binary64.value, Magnitude.ofFloat?, hparts] at hlow
    exact absurd hlow (WithBot.not_coe_le_bot _)
  | infinite negative =>
    rw [Binary64.value_of_infinite hparts] at hlow hhigh
    cases negative
    · exact absurd (WithBot.coe_le_coe.mp hhigh) (WithTop.not_top_le_coe _)
    · exact absurd hlow (WithBot.not_coe_le_bot _)
  | finite negative mantissa exponent =>
    have hvalue := Binary64.value_of_finite hparts
    rw [toInt_of_finite hparts] at hint
    rw [equated, equated, hvalue, Binary64.coe_coe_inj]
    by_cases hexponent : 0 ≤ exponent
    · -- the double is an integer in the range of words or the one above it
      rw [Binary64.scaled_eq_truncateParts negative mantissa hexponent] at hvalue ⊢
      rw [hvalue] at hlow hhigh hview
      have hlow' : minValue ≤ Binary64.truncateParts negative mantissa exponent := by
        exact_mod_cast WithTop.coe_le_coe.mp (WithBot.coe_le_coe.mp hlow)
      have hhigh' : Binary64.truncateParts negative mantissa exponent ≤ 9223372036854775808 := by
        exact_mod_cast WithTop.coe_le_coe.mp (WithBot.coe_le_coe.mp hhigh)
      have hmax : m = maxValue → Binary64.truncateParts negative mantissa exponent = 9223372036854775808 := by
        rintro rfl
        rw [nearest_maxValue, value_aboveWords, Binary64.coe_coe_inj] at hview
        exact_mod_cast hview.symm
      rw [Int.cast_inj]
      by_cases htop : m = maxValue
      · rw [if_pos htop, hmax htop]
      · rw [if_neg htop]
        rw [minValue_eq, maxValue_eq] at *
        omega
    · -- the word has no more bits than a mantissa, so nothing is lost by rounding it
      have hsmall := Binary64.natAbs_truncateParts_lt negative (Binary64.canonical_of_parts hparts).lt
        (Int.not_le.mp hexponent)
      rw [minValue_eq, maxValue_eq] at hint
      have hexact : m.natAbs < 2 ^ 53 := by omega
      rw [Binary64.value_nearest_int hexact, hvalue, Binary64.coe_coe_inj] at hview
      rw [← hview, if_neg (by rw [maxValue_eq]; omega)]

/-- A word that stands for a double is rounded to it, and the double is truncated to the word. -/
theorem views_of_equated {m : Int} {y : Float} (hword : IsWord m) (h : (int m).equated = (float y).equated) :
    Binary64.value (Binary64.nearest m) = Binary64.value y ∧ m = (float y).toInt := by
  rw [equated, equated] at h
  refine ⟨?_, ?_⟩
  · by_cases hmax : m = maxValue
    · rw [if_pos hmax] at h
      rw [hmax, nearest_maxValue, value_aboveWords, h]
    · rw [if_neg hmax] at h
      rw [← h]
      exact Binary64.value_nearest h.symm
  · cases hparts : Binary64.parts y with
    | nan =>
      rw [Binary64.value, Magnitude.ofFloat?, hparts] at h
      cases h
    | infinite negative =>
      rw [Binary64.value_of_infinite hparts] at h
      cases negative <;> cases h
    | finite negative mantissa exponent =>
      rw [Binary64.value_of_finite hparts, Binary64.coe_coe_inj] at h
      rw [toInt_of_finite hparts, Binary64.truncateParts_eq h.symm]
      by_cases htop : m = maxValue
      · rw [if_pos htop, htop]
        decide
      · rw [if_neg htop]
        exact (clamp_of_isWord hword).symm

/-- Words are equated with themselves only. -/
theorem equated_int_inj {m n : Int} (hm : IsWord m) (hn : IsWord n) :
    (int m).equated = (int n).equated ↔ m = n := by
  rw [equated, equated, Binary64.coe_coe_inj, Int.cast_inj]
  rw [isWord_iff] at hm hn
  rw [maxValue_eq]
  refine ⟨fun h => ?_, fun h => by rw [h]⟩
  split at h <;> split at h <;> omega

/-- The double view of a word is the nearest double. -/
theorem toFloat_int {n : Int} (h : IsWord n) : toFloat (int n) = .ok (Binary64.nearest n) := by
  have hsmall : n.natAbs < 2 ^ 64 := by
    have hword := isWord_iff.mp h
    omega
  rw [toFloat, Binary64.ofInt?_eq_nearest hsmall]

/-- The double view of a number, and the number of the view. -/
theorem exists_view {v : Value} (hfits : v.FitsWord) (hnan : v.isNaN = false) :
    ∃ x, v.toFloat = .ok x ∧ x.isNaN = false ∧ Binary64.value x = v.viewed := by
  cases v with
  | int n => exact ⟨_, toFloat_int hfits, Binary64.isNaN_nearest n, rfl⟩
  | float x => exact ⟨x, rfl, hnan, rfl⟩

/-! ## Comparisons -/

section

variable {v w : Value} {integers : Int → Int → Bool} {doubles : Float → Float → Bool}

/-- A comparison that holds of integers and of doubles as it holds of numbers, holds of what is compared. -/
theorem compared_iff {holds : WithBot (WithTop ℚ) → WithBot (WithTop ℚ) → Prop}
    (hv : v.FitsWord) (hw : w.FitsWord) (hvnan : v.isNaN = false) (hwnan : w.isNaN = false)
    (hintegers : ∀ m n, integers m n = true ↔ holds (int m).number (int n).number)
    (hdoubles : ∀ {x y}, x.isNaN = false → y.isNaN = false →
      (doubles x y = true ↔ holds (Binary64.value x) (Binary64.value y))) :
    compared integers doubles v w = .ok true ↔ holds (v.against w) (w.against v) := by
  obtain ⟨x, hx, hxnan, hxvalue⟩ := exists_view hv hvnan
  obtain ⟨y, hy, hynan, hyvalue⟩ := exists_view hw hwnan
  match v, w with
  | int m, int n => rw [compared, Except.ok.injEq, hintegers, against, against]
  | int _, float _ | float _, int _ | float _, float _ =>
    rw [compared_of_views hx hy (by simp), Except.ok.injEq, hdoubles hxnan hynan, hxvalue, hyvalue]
    rfl

/-- **Values are less if what is compared of them is.** -/
theorem less_iff (hv : v.FitsWord) (hw : w.FitsWord) (hvnan : v.isNaN = false) (hwnan : w.isNaN = false) :
    v.less w = .ok true ↔ v.against w < w.against v := by
  rw [less_eq_compared]
  refine compared_iff hv hw hvnan hwnan (fun m n => ?_) fun hx hy => ?_
  · rw [decide_eq_true_iff, number, number, WithBot.coe_lt_coe, WithTop.coe_lt_coe, Int.cast_lt]
  · rw [decide_eq_true_iff, Binary64.lt_iff_value hx hy]

/-- The same for `Value.atMost`. -/
theorem atMost_iff (hv : v.FitsWord) (hw : w.FitsWord) (hvnan : v.isNaN = false) (hwnan : w.isNaN = false) :
    v.atMost w = .ok true ↔ v.against w ≤ w.against v := by
  rw [atMost_eq_compared]
  refine compared_iff hv hw hvnan hwnan (fun m n => ?_) fun hx hy => ?_
  · rw [decide_eq_true_iff, number, number, WithBot.coe_le_coe, WithTop.coe_le_coe, Int.cast_le]
  · rw [decide_eq_true_iff, Binary64.le_iff_value hx hy]

theorem equal_comm (v w : Value) : v.equal w = w.equal v := by
  have hcomm : ∀ m x, (int m).equal (float x) = (float x).equal (int m) := by
    intro m x
    rw [equal, equal]
    cases (int m).toFloat with
    | error _ => rfl
    | ok y => exact congrArg Except.ok (congrArg₂ Bool.and (Binary64.beq_comm y x) Bool.beq_comm)
  cases v with
  | int m =>
    cases w with
    | int n => exact congrArg Except.ok Bool.beq_comm
    | float x => exact hcomm m x
  | float x =>
    cases w with
    | int m => exact (hcomm m x).symm
    | float y => exact congrArg Except.ok (Binary64.beq_comm x y)

/-- An integer equals a double if what is `equated` of them is. -/
theorem equal_mixed_iff {m : Int} {y : Float} (hm : IsWord m) (hy : y.isNaN = false) :
    (int m).equal (float y) = .ok true ↔ (int m).equated = (float y).equated := by
  rw [equal, toFloat_int hm]
  change Except.ok (Binary64.nearest m == y && m == (float y).toInt) = _ ↔ _
  rw [Except.ok.injEq, Bool.and_eq_true, Binary64.beq_iff_value (Binary64.isNaN_nearest m) hy, beq_iff_eq]
  exact ⟨fun h => equated_of_views hm h.1 h.2, views_of_equated hm⟩

/-- **Values are equal if what is `equated` of them is.** -/
theorem equal_iff (hv : v.FitsWord) (hw : w.FitsWord) (hvnan : v.isNaN = false) (hwnan : w.isNaN = false) :
    v.equal w = .ok true ↔ v.equated = w.equated := by
  match v, w with
  | int m, int n => rw [equal, Except.ok.injEq, beq_iff_eq, equated_int_inj hv hw]
  | float x, float y =>
    rw [equal, Except.ok.injEq]
    exact Binary64.beq_iff_value hvnan hwnan
  | int m, float y => exact equal_mixed_iff hv hwnan
  | float x, int n =>
    rw [equal_comm, equal_mixed_iff hw hvnan]
    exact eq_comm

/-- Equal values are not told apart by comparisons. -/
theorem against_eq_of_equated (hv : v.FitsWord) (hw : w.FitsWord) (h : v.equated = w.equated) :
    v.against w = w.against v := by
  match v, w with
  | int m, int n => rw [(equated_int_inj hv hw).mp h]
  | float x, float y => exact h
  | int m, float y => exact (views_of_equated hv h).1
  | float x, int n => exact (views_of_equated hw h.symm).1.symm

/-- The greatest word, and the double that its double view is. -/
def Saturated (v w : Value) : Prop :=
  v = int maxValue ∧ w = float 9223372036854775808.0

theorem Saturated.number_lt (h : Saturated v w) : v.number < w.number := by
  obtain ⟨rfl, rfl⟩ := h
  rw [number, number, value_aboveWords, WithBot.coe_lt_coe, WithTop.coe_lt_coe, Int.cast_lt]
  decide

/-- An integer is `equated` with the double that is its number, and the greatest word with the double above it. -/
theorem equated_mixed_iff {m : Int} {y : Float} :
    (int m).equated = (float y).equated
      ↔ (int m).number = (float y).number ∨ Saturated (int m) (float y) := by
  rw [equated, equated, number, number]
  by_cases hmax : m = maxValue
  · subst hmax
    rw [if_pos rfl]
    constructor
    · -- no other double has this number
      intro h
      refine .inr ⟨rfl, congrArg float ?_⟩
      exact (Binary64.nearest_of_value h.symm (by norm_num)).symm.trans
        (Binary64.nearest_of_value value_aboveWords (by norm_num))
    · rintro (h | ⟨-, h⟩)
      · -- the greatest word is no double, or it would be rounded to itself
        have hself := Binary64.value_nearest h.symm
        rw [nearest_maxValue, value_aboveWords, Binary64.coe_coe_inj, Int.cast_inj] at hself
        exact absurd hself (by decide)
      · obtain rfl := float.inj h
        exact value_aboveWords.symm
  · rw [if_neg hmax]
    refine ⟨.inl, Or.rec id fun h => absurd (int.inj h.1) hmax⟩

/-- **Equality is equality of numbers, but for the greatest word.** -/
theorem equated_iff (hv : v.FitsWord) (hw : w.FitsWord) :
    v.equated = w.equated ↔ v.number = w.number ∨ Saturated v w ∨ Saturated w v := by
  match v, w with
  | int m, int n =>
    rw [equated_int_inj hv hw, number, number, Binary64.coe_coe_inj, Int.cast_inj]
    simp [Saturated]
  | float x, float y =>
    rw [equated, equated, number, number]
    simp [Saturated]
  | int m, float y =>
    rw [equated_mixed_iff]
    simp [Saturated]
  | float x, int n =>
    rw [eq_comm, equated_mixed_iff, @eq_comm _ (number _)]
    simp [Saturated]

/-! ## NaN -/

theorem exists_toFloat_of_isNaN (hv : v.FitsWord) (hw : w.FitsWord) (h : v.isNaN = true ∨ w.isNaN = true) :
    ∃ x y, v.toFloat = .ok x ∧ w.toFloat = .ok y ∧ (x.isNaN = true ∨ y.isNaN = true) := by
  obtain ⟨x, hx⟩ := exists_toFloat hv
  obtain ⟨y, hy⟩ := exists_toFloat hw
  refine ⟨x, y, hx, hy, h.imp (fun h => ?_) fun h => ?_⟩
  · cases v with
    | int _ => cases h
    | float _ => cases hx; exact h
  · cases w with
    | int _ => cases h
    | float _ => cases hy; exact h

/-- What is denied of NaN by doubles is denied by values. -/
theorem compared_of_isNaN (hv : v.FitsWord) (hw : w.FitsWord) (h : v.isNaN = true ∨ w.isNaN = true)
    (hdoubles : ∀ {x y : Float}, x.isNaN = true ∨ y.isNaN = true → doubles x y = false) :
    compared integers doubles v w = .ok false := by
  obtain ⟨x, y, hx, hy, hnan⟩ := exists_toFloat_of_isNaN hv hw h
  rw [compared_of_views hx hy, hdoubles hnan]
  rintro m n rfl rfl
  simp [isNaN] at h

theorem less_of_isNaN (hv : v.FitsWord) (hw : w.FitsWord) (h : v.isNaN = true ∨ w.isNaN = true) :
    v.less w = .ok false := by
  rw [less_eq_compared]
  exact compared_of_isNaN hv hw h fun hnan => decide_eq_false (Binary64.not_lt_of_isNaN hnan)

theorem atMost_of_isNaN (hv : v.FitsWord) (hw : w.FitsWord) (h : v.isNaN = true ∨ w.isNaN = true) :
    v.atMost w = .ok false := by
  rw [atMost_eq_compared]
  exact compared_of_isNaN hv hw h fun hnan => decide_eq_false (Binary64.not_le_of_isNaN hnan)

theorem equal_of_isNaN (hv : v.FitsWord) (hw : w.FitsWord) (h : v.isNaN = true ∨ w.isNaN = true) :
    v.equal w = .ok false := by
  obtain ⟨x, y, hx, hy, hnan⟩ := exists_toFloat_of_isNaN hv hw h
  match v, w with
  | int m, int n => exact absurd h (by simp [isNaN])
  | int m, float _ =>
    cases hy
    rw [equal, hx]
    change Except.ok (x == _ && _) = _
    rw [Binary64.beq_of_isNaN hnan, Bool.false_and]
  | float _, int n =>
    cases hx
    rw [equal, hy]
    change Except.ok (_ == y && _) = _
    rw [Binary64.beq_of_isNaN hnan, Bool.false_and]
  | float _, float _ =>
    cases hx
    cases hy
    rw [equal, Binary64.beq_of_isNaN hnan]

end

/-! ## Data -/

/-- The magnitude of a value, which NaN does not have. -/
def magnitude? : Value → Option Magnitude
  | int n => some (.finite n 0)
  | float x => Magnitude.ofFloat? x

/-- A datum that is a number has the magnitude of its value. -/
theorem magnitude?_of_ofNumber? {a : Datum} {v : Value} (h : ofNumber? a = some v) :
    a.isNumber = true ∧ a.magnitude? = v.magnitude? := by
  cases a with
  | bool _ | int _ | float _ => cases h; exact ⟨rfl, rfl⟩
  | nan _ =>
    cases h
    refine ⟨rfl, ?_⟩
    have hnan : Magnitude.ofFloat? Binary64.nan = none := by decide
    exact hnan.symm
  | _ => cases h

end Value

namespace View

section

variable {a b : Datum} {v w : Value}

theorem whole?_of_ofNumber? (h : Value.ofNumber? a = some v) :
    whole? a = match v with
      | .int n => some n
      | .float _ => none := by
  cases a with
  | bool _ | int _ | float _ | nan _ => cases h; rfl
  | _ => cases h

theorem double_of_ofNumber? (h : Value.ofNumber? a = some v) : double a = ofValue v := by
  cases a with
  | bool _ | int _ | float _ | nan _ => cases h; rfl
  | _ => cases h

theorem bind_ofValue (v w : Value) (doubles : Float → Float → Bool) :
    (do
      let x ← ofValue v
      let y ← ofValue w
      return doubles x y)
        = (do
          let x ← v.toFloat
          let y ← w.toFloat
          return doubles x y : Except EvalError Bool).mapError fun _ => .tooLarge := by
  unfold ofValue
  cases v.toFloat <;> cases w.toFloat <;> rfl

/-- Numbers are compared as their values are, where data, doubles and integers are compared as magnitudes. -/
theorem ordering_eq {data : Datum → Datum → Option Bool} {doubles : Float → Float → Bool}
    {holds : Magnitude → Magnitude → Bool} {integers : Int → Int → Bool}
    (ha : Value.ofNumber? a = some v) (hb : Value.ofNumber? b = some w)
    (hdata : data a b = some (Magnitude.asked holds a.magnitude? b.magnitude?))
    (hdoubles : ∀ x y, doubles x y = Magnitude.asked holds (Magnitude.ofFloat? x) (Magnitude.ofFloat? y))
    (hintegers : ∀ m n, holds (.finite m 0) (.finite n 0) = integers m n) :
    ordering data doubles a b = (Value.compared integers doubles v w).mapError fun _ => .tooLarge := by
  rw [(Value.magnitude?_of_ofNumber? ha).2, (Value.magnitude?_of_ofNumber? hb).2] at hdata
  rw [ordering, whole?_of_ofNumber? ha, whole?_of_ofNumber? hb, double_of_ofNumber? ha,
    double_of_ofNumber? hb, hdata]
  match v, w with
  | .int m, .int n => exact congrArg Except.ok (hintegers m n)
  | .float x, .float y => exact congrArg Except.ok (hdoubles x y).symm
  | .int m, .float y => exact bind_ofValue (.int m) (.float y) doubles
  | .float x, .int n => exact bind_ofValue (.float x) (.int n) doubles

/-- `View.less` asks the values of two numbers. -/
theorem less_eq (ha : Value.ofNumber? a = some v) (hb : Value.ofNumber? b = some w) :
    less a b = (v.less w).mapError fun _ => .tooLarge := by
  have hdata := Datum.less?_of_isNumber (Value.magnitude?_of_ofNumber? ha).1
    (Value.magnitude?_of_ofNumber? hb).1
  rw [less, ordering_eq ha hb hdata Magnitude.asked_less Magnitude.less_finite, Value.less_eq_compared]

theorem atMost_eq (ha : Value.ofNumber? a = some v) (hb : Value.ofNumber? b = some w) :
    atMost a b = (v.atMost w).mapError fun _ => .tooLarge := by
  have hdata := Datum.atMost?_of_isNumber (Value.magnitude?_of_ofNumber? ha).1
    (Value.magnitude?_of_ofNumber? hb).1
  have hintegers : ∀ m n : Int, (!(Magnitude.finite n 0).less (.finite m 0)) = decide (m ≤ n) := by
    intro m n
    rw [Magnitude.less_finite, ← decide_not, decide_eq_decide, Int.not_lt]
  rw [atMost, ordering_eq ha hb hdata Magnitude.asked_atMost hintegers, Value.atMost_eq_compared]

/-- Asking the other way round is asking about the data in the other order. -/
theorem ordering_swap {data : Datum → Datum → Option Bool} {doubles : Float → Float → Bool}
    (ha : Value.ofNumber? a = some v) (hb : Value.ofNumber? b = some w) :
    ordering (fun a b => data b a) (fun x y => doubles y x) a b = ordering data doubles b a := by
  rw [ordering, ordering, double_of_ofNumber? ha, double_of_ofNumber? hb, Bool.beq_comm]
  congr 1
  unfold ofValue
  cases v.toFloat <;> cases w.toFloat <;> rfl

theorem greater_eq (ha : Value.ofNumber? a = some v) (hb : Value.ofNumber? b = some w) :
    greater a b = (w.less v).mapError fun _ => .tooLarge :=
  (ordering_swap ha hb).trans (less_eq hb ha)

theorem atLeast_eq (ha : Value.ofNumber? a = some v) (hb : Value.ofNumber? b = some w) :
    atLeast a b = (w.atMost v).mapError fun _ => .tooLarge :=
  (ordering_swap ha hb).trans (atMost_eq hb ha)

theorem withInteger_eq {y : Float} (m : Int) (hb : Value.ofNumber? b = some (.float y)) :
    equal.withInteger m b
      = ((Value.int m).equal (.float y)).mapError fun _ => .tooLarge := by
  rw [equal.withInteger, ofValue, Value.equal]
  cases b with
  | float _ =>
    cases hb
    cases (Value.int m).toFloat <;> rfl
  | nan _ =>
    -- NaN is no double of the data, but compared as one
    cases hb
    cases (Value.int m).toFloat with
    | error _ => rfl
    | ok x =>
      change Except.ok false = Except.ok (x == Binary64.nan && _)
      rw [Binary64.beq_of_isNaN (.inr (by decide)), Bool.false_and]
  | _ => cases hb

/-- `View.equal` asks the values of two numbers, though it looks at integers first. -/
theorem equal_eq (ha : Value.ofNumber? a = some v) (hb : Value.ofNumber? b = some w) :
    equal a b = (v.equal w).mapError fun _ => .tooLarge := by
  have hsame := Datum.same_of_isNumber (b := b) (Value.magnitude?_of_ofNumber? ha).1
  rw [(Value.magnitude?_of_ofNumber? ha).2, (Value.magnitude?_of_ofNumber? hb).2] at hsame
  rw [equal, whole?_of_ofNumber? ha, whole?_of_ofNumber? hb]
  match v, w with
  | .int m, .int n =>
    dsimp only
    rw [hsame]
    exact congrArg Except.ok (Magnitude.same_finite m n)
  | .float x, .float y =>
    dsimp only
    rw [hsame]
    exact congrArg Except.ok (Magnitude.asked_same x y).symm
  | .int m, .float y => exact withInteger_eq m hb
  | .float x, .int n => exact (withInteger_eq n ha).trans (congrArg _ (Value.equal_comm _ _))

end

end View

/-! ## Consistency -/

/-- A value with a place in the order: an integer in the range of words, or a double other than NaN. -/
structure Comparable where
  value : Value
  fits : value.FitsWord
  notNaN : value.isNaN = false

namespace Comparable

/-- The number that a value is, between two infinities. -/
def number (a : Comparable) : WithBot (WithTop ℚ) := a.value.number

/-- Whether a comparison holds of two numbers. -/
def Holds (op : CompareOp) (a b : Comparable) : Prop :=
  op.apply a.value b.value = .ok true

theorem holds_eq_iff {a b : Comparable} : Holds .eq a b ↔ a.value.equated = b.value.equated :=
  Value.equal_iff a.fits b.fits a.notNaN b.notNaN

theorem holds_lt_iff {a b : Comparable} :
    Holds .lt a b ↔ a.value.against b.value < b.value.against a.value :=
  Value.less_iff a.fits b.fits a.notNaN b.notNaN

theorem holds_le_iff {a b : Comparable} :
    Holds .le a b ↔ a.value.against b.value ≤ b.value.against a.value :=
  Value.atMost_iff a.fits b.fits a.notNaN b.notNaN

/-- **Equality is an equivalence.** -/
theorem holds_eq_equivalence : Equivalence (Holds .eq) where
  refl _ := holds_eq_iff.mpr rfl
  symm h := holds_eq_iff.mpr (holds_eq_iff.mp h).symm
  trans h h' := holds_eq_iff.mpr ((holds_eq_iff.mp h).trans (holds_eq_iff.mp h'))

theorem holds_le_of_eq {a b : Comparable} (h : Holds .eq a b) : Holds .le a b :=
  holds_le_iff.mpr (Value.against_eq_of_equated a.fits b.fits (holds_eq_iff.mp h)).le

/-- The order is total: what is not at most is greater. -/
theorem holds_le_iff_not_lt {a b : Comparable} : Holds .le a b ↔ ¬ Holds .lt b a := by
  rw [holds_le_iff, holds_lt_iff, not_lt]

end Comparable

section

open Comparable

/-- **The comparisons are consistent.** Every comparison of numbers has an answer. Equality is an
equivalence, and equality of numbers but for the greatest word and the double above it. The strict order is
irreflexive and transitive and implies the order of numbers; the other orders are its converse and their
negations, and hold of what is equal as they should. With NaN nothing is equal or in order. Data that are
numbers are compared as their values are. -/
theorem comparisons_consistent :
    (∀ (op : CompareOp) (a b : Comparable), ∃ answer, op.apply a.value b.value = .ok answer)
    ∧ Equivalence (Holds .eq)
    ∧ (∀ a b, Holds .eq a b ↔ a.number = b.number
        ∨ Value.Saturated a.value b.value ∨ Value.Saturated b.value a.value)
    ∧ (∀ a b : Comparable, Value.Saturated a.value b.value → a.number < b.number)
    ∧ (∀ a, ¬ Holds .lt a a)
    ∧ (∀ a b c, Holds .lt a b → Holds .lt b c → Holds .lt a c)
    ∧ (∀ a b, Holds .lt a b → a.number < b.number)
    ∧ (∀ a b, Holds .gt a b ↔ Holds .lt b a)
    ∧ (∀ a b, Holds .le a b ↔ ¬ Holds .gt a b)
    ∧ (∀ a b, Holds .ge a b ↔ ¬ Holds .lt a b)
    ∧ (∀ a b, Holds .eq a b → Holds .le a b ∧ Holds .ge a b)
    ∧ (∀ v w : Value, v.FitsWord → w.FitsWord → v.isNaN = true ∨ w.isNaN = true →
        ∀ op ∈ [CompareOp.eq, .lt, .gt, .le, .ge], op.apply v w = .ok false)
    ∧ ∀ a b v w, Value.ofNumber? a = some v → Value.ofNumber? b = some w →
        View.equal a b = (CompareOp.eq.apply v w).mapError (fun _ => .tooLarge)
        ∧ View.less a b = (CompareOp.lt.apply v w).mapError (fun _ => .tooLarge)
        ∧ View.greater a b = (CompareOp.gt.apply v w).mapError (fun _ => .tooLarge)
        ∧ View.atMost a b = (CompareOp.le.apply v w).mapError (fun _ => .tooLarge)
        ∧ View.atLeast a b = (CompareOp.ge.apply v w).mapError (fun _ => .tooLarge) := by
  refine ⟨fun op a b => op.exists_apply a.fits b.fits, holds_eq_equivalence, ?_, ?_, ?_, ?_, ?_, ?_, ?_, ?_, ?_,
    ?_, ?_⟩
  · intro a b
    rw [holds_eq_iff]
    exact Value.equated_iff a.fits b.fits
  · intro a b h
    exact h.number_lt
  · intro a h
    exact lt_irrefl _ (holds_lt_iff.mp h)
  · intro a b c hab hbc
    exact holds_lt_iff.mpr (Value.against_lt_trans (holds_lt_iff.mp hab) (holds_lt_iff.mp hbc))
  · intro a b h
    exact Value.number_lt_of_against_lt (holds_lt_iff.mp h)
  · -- the converse is asked as the strict order with its operands exchanged
    intro a b
    exact Iff.rfl
  · intro a b
    exact holds_le_iff_not_lt
  · intro a b
    exact holds_le_iff_not_lt
  · intro a b h
    exact ⟨holds_le_of_eq h, holds_le_of_eq (holds_eq_equivalence.symm h)⟩
  · intro v w hv hw hnan op hop
    simp only [List.mem_cons, List.not_mem_nil, or_false] at hop
    obtain rfl | rfl | rfl | rfl | rfl := hop
    · exact Value.equal_of_isNaN hv hw hnan
    · exact Value.less_of_isNaN hv hw hnan
    · exact Value.less_of_isNaN hw hv hnan.symm
    · exact Value.atMost_of_isNaN hv hw hnan
    · exact Value.atMost_of_isNaN hw hv hnan.symm
  · intro a b v w ha hb
    exact ⟨View.equal_eq ha hb, View.less_eq ha hb, View.greater_eq ha hb, View.atMost_eq ha hb,
      View.atLeast_eq ha hb⟩

/-- The greatest word is equated with the double above it although it is less, and the order does not tell
the two apart; NaN does not even equal itself. -/
theorem comparisons_consistent_at_limit :
    ∃ a b : Comparable, a.value = .int 9223372036854775807 ∧ b.value = .float 9223372036854775808.0
      ∧ Holds .eq a b ∧ a.number < b.number ∧ ¬ Holds .lt a b
      ∧ CompareOp.eq.apply (.float Binary64.nan) (.float Binary64.nan) = .ok false := by
  obtain ⟨-, -, heq, hlt, -, -, -, -, -, hge, hle, hnan, -⟩ := comparisons_consistent
  have hsaturated : Value.Saturated (.int 9223372036854775807) (.float 9223372036854775808.0) := ⟨rfl, rfl⟩
  let a : Comparable := ⟨.int 9223372036854775807, isWord_iff.mpr (by decide), rfl⟩
  let b : Comparable := ⟨.float 9223372036854775808.0, trivial, by decide⟩
  have hab : Holds .eq a b := (heq a b).mpr (.inr (.inl hsaturated))
  exact ⟨a, b, rfl, rfl, hab, hlt a b hsaturated, (hge a b).mp (hle a b hab).2,
    hnan (.float Binary64.nan) (.float Binary64.nan) trivial trivial (.inl (by decide)) .eq (by simp)⟩

end

end ProgramArt.Beat
