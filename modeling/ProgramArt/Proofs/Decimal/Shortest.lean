import ProgramArt.Decimal.Reader
import ProgramArt.Decimal.Shortest
import ProgramArt.Proofs.Number.Nearest

/-!
# The shortest digits round to their double

The search for the shortest digits of a double ends on some grid of powers of ten, and what it finds there lies among
the numbers that round to the double (`shortest_mem`). Reading such a number gives the double back, whatever digits it
is written with (`Number.toFloat_eq`).

The argument is about the last grid that is searched: its step is smaller than the distance from the double to the
upper end of the interval, so the neighbour above the double lies inside (`isSome_onGrid`). Only an upper bound on the
logarithm of the double is needed for that, `floorLog10_le`.
-/

namespace ProgramArt.Decimal

open ProgramArt Binary64

/-! ## The number that digits stand for -/

/-- The number `coefficient · 10 ^ exponent`. -/
def Scaled.value (d : Scaled) : ℚ :=
  d.coefficient * 10 ^ d.exponent

theorem value_stripZeros (fuel : Nat) (d : Scaled) : (d.stripZeros fuel).value = d.value := by
  induction fuel generalizing d with
  | zero => rfl
  | succ fuel ih =>
    unfold Scaled.stripZeros
    split
    · rename_i hzero
      rw [ih, Scaled.value, Scaled.value]
      have htens : d.coefficient = d.coefficient / 10 * 10 := by omega
      conv_rhs => rw [htens]
      push_cast
      rw [zpow_add_one₀ (by norm_num)]
      ring
    · rfl

/-- A power with a whole exponent is a quotient of two powers, one of which is one. -/
theorem pow_toNat_div (base : Nat) (hbase : 0 < base) (exponent : Int) :
    ((Nat.pow base exponent.toNat : Nat) : ℚ) / (Nat.pow base (-exponent).toNat : Nat) = base ^ exponent := by
  have hne : (base : ℚ) ≠ 0 := by exact_mod_cast hbase.ne'
  simp only [Nat.pow_eq, Nat.cast_pow]
  rcases le_total 0 exponent with h | h
  · obtain ⟨k, rfl⟩ := Int.eq_ofNat_of_zero_le h
    simp
  · obtain ⟨k, hk⟩ := Int.eq_ofNat_of_zero_le (show 0 ≤ -exponent by omega)
    obtain rfl : exponent = -(k : Int) := by omega
    simp

theorem Scaled.value_eq_div (d : Scaled) :
    d.value = (d.coefficient * Nat.pow 10 d.exponent.toNat : Nat) / (Nat.pow 10 (-d.exponent).toNat : Nat) := by
  rw [Scaled.value, Nat.cast_mul, mul_div_assoc, pow_toNat_div 10 (by norm_num)]
  norm_cast

/-! ## The interval of a double -/

/-- Membership is tested without division. -/
theorem contains_iff {i : Interval} (hden : 0 < i.den) (d : Scaled) :
    i.contains d = true ↔ Between i.closed ((i.low : ℚ) / i.den) ((i.high : ℚ) / i.den) d.value := by
  have hden' : (0 : ℚ) < i.den := by exact_mod_cast hden
  have hunit : (0 : ℚ) < (Nat.pow 10 (-d.exponent).toNat : Nat) := by
    exact_mod_cast Nat.pow_pos (by norm_num)
  rw [Scaled.value_eq_div, Interval.contains]
  cases i.closed with
  | true =>
    rw [Between, div_le_div_iff₀ hden' hunit, div_le_div_iff₀ hunit hden', if_pos rfl, decide_eq_true_eq]
    norm_cast
  | false =>
    rw [Between, div_lt_div_iff₀ hden' hunit, div_lt_div_iff₀ hunit hden', if_neg Bool.false_ne_true,
      decide_eq_true_eq]
    norm_cast

/-- The interval counts in quarters of the double's unit. -/
theorem quarter_interval (mantissa : Nat) (exponent : Int) :
    ((1 <<< (exponent - 2).toNat : Nat) : ℚ) / (interval mantissa exponent).den = 2 ^ exponent / 4 := by
  have hquarter := pow_toNat_div 2 (by norm_num) (exponent - 2)
  simp only [interval, Nat.shiftLeft_eq, one_mul, Nat.pow_eq] at hquarter ⊢
  rw [hquarter, Nat.cast_ofNat, zpow_sub₀ two_ne_zero]
  norm_num

theorem low_interval {mantissa : Nat} (exponent : Int) (hpos : 0 < mantissa) :
    ((interval mantissa exponent).low : ℚ) / (interval mantissa exponent).den
      = (mantissa - gapBelow mantissa exponent) * 2 ^ exponent := by
  have hquarter := quarter_interval mantissa exponent
  rw [show (interval mantissa exponent).low
      = (4 * mantissa - if mantissa = 2 ^ 52 ∧ -1074 < exponent then 1 else 2)
        * 1 <<< (exponent - 2).toNat from rfl, gapBelow, Nat.cast_mul, mul_div_assoc, hquarter]
  split
  · rw [Nat.cast_sub (by omega)]
    push_cast
    ring
  · rw [Nat.cast_sub (by omega)]
    push_cast
    ring

theorem value_interval (mantissa : Nat) (exponent : Int) :
    ((interval mantissa exponent).value : ℚ) / (interval mantissa exponent).den = mantissa * 2 ^ exponent := by
  rw [show (interval mantissa exponent).value = 4 * mantissa * 1 <<< (exponent - 2).toNat from rfl,
    Nat.cast_mul, mul_div_assoc, quarter_interval]
  push_cast
  ring

theorem high_interval (mantissa : Nat) (exponent : Int) :
    ((interval mantissa exponent).high : ℚ) / (interval mantissa exponent).den
      = (mantissa + 1 / 2) * 2 ^ exponent := by
  rw [show (interval mantissa exponent).high = (4 * mantissa + 2) * 1 <<< (exponent - 2).toNat from rfl,
    Nat.cast_mul, mul_div_assoc, quarter_interval]
  push_cast
  ring

theorem den_interval_pos (mantissa : Nat) (exponent : Int) : 0 < (interval mantissa exponent).den := by
  change 0 < 1 <<< (-(exponent - 2)).toNat
  rw [Nat.shiftLeft_eq]
  positivity

/-! ## The search -/

/-- What a grid offers is a member of the interval. -/
theorem contains_onGrid {i : Interval} {exponent : Int} {d : Scaled} (h : i.onGrid exponent = some d) :
    i.contains d = true := by
  unfold Interval.onGrid at h
  dsimp only at h
  split at h
  · rename_i hdown hup
    cases h
    -- rounding takes one of the two neighbours
    unfold roundQuotient
    dsimp only
    split
    · exact hdown
    · split
      · exact hup
      · rcases Nat.mod_two_eq_zero_or_one
          (i.value * Nat.pow 10 (-exponent).toNat / (i.den * Nat.pow 10 exponent.toNat)) with heven | hodd
        · rw [heven]
          exact hdown
        · rw [hodd]
          exact hup
  · rename_i hdown _
    cases h
    exact hdown
  · rename_i _ hup
    cases h
    exact hup
  · cases h

/-- A grid finer than the distance to the upper end of the interval has a member. -/
theorem isSome_onGrid {i : Interval} {exponent : Int} (hden : 0 < i.den) (hlow : i.low ≤ i.value)
    (hfine : (i.value : ℚ) / i.den + 10 ^ exponent < (i.high : ℚ) / i.den) :
    (i.onGrid exponent).isSome = true := by
  have hden' : (0 : ℚ) < i.den := by exact_mod_cast hden
  have hstep : (0 : ℚ) < 10 ^ exponent := by positivity
  let num := i.value * Nat.pow 10 (-exponent).toNat
  let den := i.den * Nat.pow 10 exponent.toNat
  have hpos : 0 < den := Nat.mul_pos hden (Nat.pow_pos (by norm_num))
  have hpos' : (0 : ℚ) < den := by exact_mod_cast hpos
  -- the value in steps of the grid
  have hsteps : (num : ℚ) / den * 10 ^ exponent = (i.value : ℚ) / i.den := by
    have hten : ((Nat.pow 10 exponent.toNat : Nat) : ℚ) / (Nat.pow 10 (-exponent).toNat : Nat)
        = 10 ^ exponent := by
      have := pow_toNat_div 10 (by norm_num) exponent
      exact_mod_cast this
    have hunit : ((Nat.pow 10 exponent.toNat : Nat) : ℚ) ≠ 0 := by
      exact_mod_cast (Nat.pow_pos (by norm_num)).ne'
    have hunit' : ((Nat.pow 10 (-exponent).toNat : Nat) : ℚ) ≠ 0 := by
      exact_mod_cast (Nat.pow_pos (by norm_num)).ne'
    rw [← hten]
    simp only [num, den, Nat.cast_mul]
    field_simp
  have hup : i.contains ⟨num / den + 1, exponent⟩ = true := by
    have habove : (num : ℚ) / den < (num / den + 1 : Nat) := by
      rw [div_lt_iff₀ hpos']
      have := Nat.lt_mul_div_succ num hpos
      rw [mul_comm] at this
      exact_mod_cast this
    have hclose : ((num / den + 1 : Nat) : ℚ) ≤ (num : ℚ) / den + 1 := by
      push_cast
      have : ((num / den : Nat) : ℚ) ≤ (num : ℚ) / den := Nat.cast_div_le
      linarith
    rw [contains_iff hden]
    have hlow' : (i.low : ℚ) / i.den ≤ (i.value : ℚ) / i.den := by
      gcongr
    have hgt : (i.value : ℚ) / i.den < Scaled.value ⟨num / den + 1, exponent⟩ := by
      rw [← hsteps]
      exact mul_lt_mul_of_pos_right habove hstep
    have hlt : Scaled.value ⟨num / den + 1, exponent⟩ < (i.high : ℚ) / i.den := by
      refine lt_of_le_of_lt ?_ hfine
      rw [← hsteps, ← add_one_mul]
      exact mul_le_mul_of_nonneg_right hclose hstep.le
    cases i.closed with
    | true => exact ⟨(hlow'.trans_lt hgt).le, hlt.le⟩
    | false => exact ⟨hlow'.trans_lt hgt, hlt⟩
  unfold Interval.onGrid
  dsimp only
  split
  · rfl
  · rfl
  · rfl
  · rename_i _ hnone
    cases hup.symm.trans hnone

/-- A search whose last grid has a member finds a member. -/
theorem contains_search {i : Interval} {leading : Int} (fuel count : Nat)
    (h : (i.onGrid (leading - (count + fuel : Nat) + 1)).isSome = true) :
    i.contains (i.search leading fuel count) = true := by
  induction fuel generalizing count with
  | zero =>
    obtain ⟨d, hd⟩ := Option.isSome_iff_exists.mp h
    rw [Nat.add_zero] at hd
    rw [Interval.search, hd]
    exact contains_onGrid hd
  | succ fuel ih =>
    unfold Interval.search
    split
    · rename_i d hd
      exact contains_onGrid hd
    · refine ih (count + 1) ?_
      rw [show count + 1 + fuel = count + (fuel + 1) by omega]
      exact h

/-! ## The logarithm -/

/-- The first guess of the logarithm is not too large. -/
theorem ten_zpow_le_two_zpow {q log : Int} (hq : 100000 * q ≤ 30103 * log) (hleast : -1500 ≤ log)
    (hgreatest : log ≤ 1500) : (10 : ℚ) ^ (q - 2) ≤ 2 ^ log := by
  rcases le_total 0 log with hsign | hsign
  · -- a thousand is less than the tenth power of two
    have hpow : ((10 : ℚ) ^ (q - 2)) ^ 10 ≤ (2 ^ log) ^ 10 := by
      calc ((10 : ℚ) ^ (q - 2)) ^ 10 = 10 ^ ((q - 2) * 10) := by
            rw [zpow_mul]
            norm_cast
        _ ≤ 10 ^ (3 * log) := zpow_le_zpow_right₀ (by norm_num) (by omega)
        _ = (10 ^ (3 : Int)) ^ log := zpow_mul _ _ _
        _ ≤ (2 ^ (10 : Int)) ^ log := by
            obtain ⟨k, rfl⟩ := Int.eq_ofNat_of_zero_le hsign
            rw [zpow_natCast, zpow_natCast]
            gcongr
            norm_num
        _ = (2 ^ log) ^ 10 := by
            rw [← zpow_mul, mul_comm, zpow_mul]
            norm_cast
    exact (pow_le_pow_iff_left₀ (by positivity) (by positivity) (by norm_num)).mp hpow
  · -- the powers are below one: here a bound on the other side is needed
    have hpow : ((10 : ℚ) ^ (q - 2)) ^ 93 ≤ (2 ^ log) ^ 93 := by
      calc ((10 : ℚ) ^ (q - 2)) ^ 93 = 10 ^ ((q - 2) * 93) := by
            rw [zpow_mul]
            norm_cast
        _ ≤ 10 ^ (28 * log) := zpow_le_zpow_right₀ (by norm_num) (by omega)
        _ = (10 ^ (28 : Int)) ^ log := zpow_mul _ _ _
        _ ≤ (2 ^ (93 : Int)) ^ log := by
            obtain ⟨k, hk⟩ := Int.eq_ofNat_of_zero_le (show 0 ≤ -log by omega)
            obtain rfl : log = -(k : Int) := by omega
            rw [zpow_neg, zpow_neg, zpow_natCast, zpow_natCast]
            gcongr
            norm_num
        _ = (2 ^ log) ^ 93 := by
            rw [← zpow_mul, mul_comm, zpow_mul]
            norm_cast
    exact (pow_le_pow_iff_left₀ (by positivity) (by positivity) (by norm_num)).mp hpow

theorem floorLog10From_le {num den : Nat} {guess : Int} (hden : 0 < den) (fuel : Nat)
    (h : (10 : ℚ) ^ guess ≤ (num : ℚ) / den) : (10 : ℚ) ^ floorLog10From num den fuel guess ≤ (num : ℚ) / den := by
  induction fuel generalizing guess with
  | zero => exact h
  | succ fuel ih =>
    unfold floorLog10From
    dsimp only
    split
    · rename_i hle
      apply ih
      have hden' : (0 : ℚ) < den := by exact_mod_cast hden
      have hunit : (0 : ℚ) < (Nat.pow 10 (-(guess + 1)).toNat : Nat) := by
        exact_mod_cast Nat.pow_pos (by norm_num)
      have hten := pow_toNat_div 10 (by norm_num) (guess + 1)
      rw [Nat.cast_ofNat] at hten
      rw [← hten, div_le_div_iff₀ hunit hden']
      exact_mod_cast hle
    · exact h

/-- **The logarithm is not too large** for quotients within the reach of doubles. -/
theorem floorLog10_le {num den : Nat} (hnum : 0 < num) (hden : 0 < den)
    (hlow : (2 : ℚ) ^ (-1400 : Int) ≤ (num : ℚ) / den)
    (hhigh : (num : ℚ) / den < 2 ^ (1400 : Int)) : (10 : ℚ) ^ floorLog10 num den ≤ (num : ℚ) / den := by
  obtain ⟨hle, hlt⟩ := floorLog2_spec hnum hden
  have hleast : (-1400 : Int) < floorLog2 num den + 1 :=
    (zpow_lt_zpow_iff_right₀ (one_lt_two (α := ℚ))).mp (hlow.trans_lt hlt)
  have hgreatest : floorLog2 num den < 1400 :=
    (zpow_lt_zpow_iff_right₀ (one_lt_two (α := ℚ))).mp (hle.trans_lt hhigh)
  refine floorLog10From_le hden 4 (le_trans ?_ hle)
  apply ten_zpow_le_two_zpow
  · rw [Int.fdiv_eq_ediv_of_nonneg _ (by norm_num)]
    omega
  · omega
  · omega

/-! ## The shortest digits -/

/-- What a finite double stands for lies within the reach of doubles. -/
theorem value_bounds {mantissa : Nat} {exponent : Int} (h : Canonical mantissa exponent) (hpos : 0 < mantissa) :
    (2 : ℚ) ^ (-1074 : Int) ≤ mantissa * 2 ^ exponent ∧ (mantissa : ℚ) * 2 ^ exponent < 2 ^ (1024 : Int) := by
  have hone : (1 : ℚ) ≤ mantissa := by exact_mod_cast hpos
  have hlt : (mantissa : ℚ) < 2 ^ (53 : Int) := by exact_mod_cast h.lt
  constructor
  · calc (2 : ℚ) ^ (-1074 : Int) ≤ 2 ^ exponent := zpow_le_zpow_right₀ one_le_two h.least
      _ ≤ mantissa * 2 ^ exponent := le_mul_of_one_le_left (by positivity) hone
  · calc (mantissa : ℚ) * 2 ^ exponent < 2 ^ (53 : Int) * 2 ^ exponent :=
          mul_lt_mul_of_pos_right hlt (by positivity)
      _ = 2 ^ (53 + exponent) := (zpow_add₀ two_ne_zero _ _).symm
      _ ≤ 2 ^ (1024 : Int) := zpow_le_zpow_right₀ one_le_two (by linarith [h.greatest])

/-- **The shortest digits lie nearest to their double.** -/
theorem shortest_mem {mantissa : Nat} {exponent : Int} (h : Canonical mantissa exponent) (hpos : 0 < mantissa) :
    Between (mantissa % 2 = 0) ((mantissa - gapBelow mantissa exponent) * 2 ^ exponent)
      ((mantissa + 1 / 2) * 2 ^ exponent) (shortest mantissa exponent).value := by
  have hden := den_interval_pos mantissa exponent
  obtain ⟨hleast, hgreatest⟩ := value_bounds h hpos
  have hunit : (0 : ℚ) < 2 ^ exponent := by positivity
  have hvalue : 0 < (interval mantissa exponent).value := by
    change 0 < 4 * mantissa * 1 <<< (exponent - 2).toNat
    rw [Nat.shiftLeft_eq]
    positivity
  have hlog : (10 : ℚ) ^ floorLog10 (interval mantissa exponent).value (interval mantissa exponent).den
      ≤ mantissa * 2 ^ exponent := by
    rw [← value_interval] at hleast hgreatest ⊢
    refine floorLog10_le hvalue hden (le_trans ?_ hleast) (hgreatest.trans_le ?_)
    · exact zpow_le_zpow_right₀ one_le_two (by norm_num)
    · exact zpow_le_zpow_right₀ one_le_two (by norm_num)
  -- only membership of what the search ends with is needed, not that the digits are the fewest
  rw [shortest, value_stripZeros, ← low_interval exponent hpos, ← high_interval]
  refine (contains_iff hden _).mp (contains_search 20 1 (isSome_onGrid hden ?_ ?_))
  · change (4 * mantissa - _) * 1 <<< (exponent - 2).toNat ≤ 4 * mantissa * 1 <<< (exponent - 2).toNat
    exact Nat.mul_le_mul_right _ (Nat.sub_le _ _)
  · -- the last grid has twenty-one digits, and 53 bits are less than that
    rw [value_interval, high_interval, add_mul, add_lt_add_iff_left]
    have hlt : (mantissa : ℚ) < 2 ^ 53 := by exact_mod_cast h.lt
    generalize floorLog10 (interval mantissa exponent).value (interval mantissa exponent).den = leading at hlog ⊢
    calc (10 : ℚ) ^ (leading - (1 + 20 : Nat) + 1) = 10 ^ leading / 10 ^ (20 : Int) := by
          rw [← zpow_sub₀ (by norm_num)]
          congr 1
          push_cast
          ring
      _ ≤ mantissa * 2 ^ exponent / 10 ^ (20 : Int) := by gcongr
      _ < 1 / 2 * 2 ^ exponent := by
          rw [div_lt_iff₀ (by positivity)]
          have : (mantissa : ℚ) < 1 / 2 * 10 ^ (20 : Int) := hlt.trans (by norm_num)
          nlinarith

/-! ## Reading -/

/-- The digits of a positive number tell its power of ten. -/
theorem pow_length_toDigits {n : Nat} (hpos : 0 < n) :
    10 ^ ((Nat.toDigits 10 n).length - 1) ≤ n ∧ n < 10 ^ (Nat.toDigits 10 n).length := by
  have hlength : 0 < (Nat.toDigits 10 n).length := Nat.length_toDigits_pos
  constructor
  · rcases Nat.eq_zero_or_pos ((Nat.toDigits 10 n).length - 1) with hone | hmore
    · rw [hone]
      exact hpos
    · by_contra hlt
      have := (Nat.length_toDigits_le_iff (by norm_num) hmore).mpr (not_le.mp hlt)
      omega
  · exact (Nat.length_toDigits_le_iff (by norm_num) hlength).mp le_rfl

/-- A number nearest to a double has its leading digit where doubles reach. -/
theorem leading_bounds {d : Scaled} {mantissa : Nat} {exponent : Int} (h : Canonical mantissa exponent)
    (hpos : 0 < mantissa) (hd : 0 < d.coefficient)
    (hmem : Between (mantissa % 2 = 0) ((mantissa - gapBelow mantissa exponent) * 2 ^ exponent)
      ((mantissa + 1 / 2) * 2 ^ exponent) d.value) :
    d.exponent + (Nat.toDigits 10 d.coefficient).length ≤ 400
      ∧ -400 ≤ d.exponent + (Nat.toDigits 10 d.coefficient).length := by
  obtain ⟨hlow, hhigh⟩ := hmem.le
  obtain ⟨hleast, hgreatest⟩ := value_bounds h hpos
  obtain ⟨hdigitsLow, hdigitsHigh⟩ := pow_length_toDigits hd
  have hgap := gapBelow_le mantissa exponent
  have hone : (1 : ℚ) ≤ mantissa := by exact_mod_cast hpos
  have hunit : (0 : ℚ) < 2 ^ exponent := by positivity
  have hlength : 0 < (Nat.toDigits 10 d.coefficient).length := Nat.length_toDigits_pos
  have height : (8 : ℚ) = 2 ^ (3 : Int) := by norm_num
  rw [Scaled.value] at hlow hhigh
  -- powers of ten are compared with those of eight, and these are powers of two
  constructor
  · have hlt : (10 : ℚ) ^ (((Nat.toDigits 10 d.coefficient).length - 1 : Nat) + d.exponent) < 10 ^ (400 : Int) := by
      calc (10 : ℚ) ^ (((Nat.toDigits 10 d.coefficient).length - 1 : Nat) + d.exponent)
          = 10 ^ ((Nat.toDigits 10 d.coefficient).length - 1) * 10 ^ d.exponent := by
            rw [zpow_add₀ (by norm_num), zpow_natCast]
        _ ≤ d.coefficient * 10 ^ d.exponent := by
            gcongr
            exact_mod_cast hdigitsLow
        _ ≤ (mantissa + 1 / 2) * 2 ^ exponent := hhigh
        _ ≤ 2 * (mantissa * 2 ^ exponent) := by nlinarith
        _ < 2 * 2 ^ (1024 : Int) := by linarith
        _ = 2 ^ (1025 : Int) := (zpow_one_add₀ two_ne_zero 1024).symm
        _ ≤ 2 ^ (3 * 400 : Int) := zpow_le_zpow_right₀ one_le_two (by norm_num)
        _ = 8 ^ (400 : Int) := by rw [zpow_mul, ← height]
        _ ≤ 10 ^ (400 : Int) := zpow_le_zpow_left₀ (by norm_num) (by norm_num) (by norm_num)
    have := (zpow_lt_zpow_iff_right₀ (by norm_num : (1 : ℚ) < 10)).mp hlt
    omega
  · have hlt : (10 : ℚ) ^ (-400 : Int) < 10 ^ ((Nat.toDigits 10 d.coefficient).length + d.exponent) := by
      calc (10 : ℚ) ^ (-400 : Int) = (10 ^ (400 : Int))⁻¹ := zpow_neg _ _
        _ ≤ (8 ^ (400 : Int))⁻¹ := by
            gcongr ?_⁻¹
            exact zpow_le_zpow_left₀ (by norm_num) (by norm_num) (by norm_num)
        _ = 2 ^ (-(3 * 400) : Int) := by rw [zpow_neg, zpow_mul, ← height]
        _ ≤ 2 ^ (-1 + -1074 : Int) := zpow_le_zpow_right₀ one_le_two (by norm_num)
        _ = 1 / 2 * 2 ^ (-1074 : Int) := by
            rw [zpow_add₀ two_ne_zero]
            norm_num
        _ ≤ 1 / 2 * (mantissa * 2 ^ exponent) := by linarith
        _ ≤ (mantissa - gapBelow mantissa exponent) * 2 ^ exponent := by nlinarith
        _ ≤ d.coefficient * 10 ^ d.exponent := hlow
        _ < 10 ^ (Nat.toDigits 10 d.coefficient).length * 10 ^ d.exponent := by
            apply mul_lt_mul_of_pos_right _ (by positivity)
            exact_mod_cast hdigitsHigh
        _ = 10 ^ ((Nat.toDigits 10 d.coefficient).length + d.exponent) := by
            rw [zpow_add₀ (by norm_num), zpow_natCast]
    have := (zpow_lt_zpow_iff_right₀ (by norm_num : (1 : ℚ) < 10)).mp hlt
    omega

/-- **Every number nearest to a double is read as that double.** -/
theorem Number.toFloat_eq {n : Number} {mantissa : Nat} {exponent : Int} (h : Canonical mantissa exponent)
    (hpos : 0 < mantissa)
    (hmem : Between (mantissa % 2 = 0) ((mantissa - gapBelow mantissa exponent) * 2 ^ exponent)
      ((mantissa + 1 / 2) * 2 ^ exponent) (Scaled.value ⟨n.coefficient, n.exponent⟩)) :
    n.toFloat = ofMagnitude n.negative (magnitudeOf mantissa exponent) := by
  have hgap := gapBelow_le mantissa exponent
  have hone : (1 : ℚ) ≤ mantissa := by exact_mod_cast hpos
  have hcoefficient : 0 < n.coefficient := by
    have hvalue : (0 : ℚ) < n.coefficient * 10 ^ n.exponent :=
      lt_of_lt_of_le (mul_pos (by linarith) (by positivity)) hmem.le.1
    rcases Nat.eq_zero_or_pos n.coefficient with hzero | hcoefficient
    · rw [hzero] at hvalue
      simp at hvalue
    · exact hcoefficient
  obtain ⟨hgreatest, hleast⟩ := leading_bounds h hpos hcoefficient hmem
  -- the cut-offs for numbers beyond the doubles are not reached
  unfold Number.toFloat
  dsimp only at hgreatest hleast ⊢
  rw [if_neg hcoefficient.ne', if_neg (by omega), if_neg (by omega)]
  refine roundRatio_eq n.negative h hpos (Nat.pow_pos (by norm_num)) ?_
  rw [Scaled.value_eq_div] at hmem
  exact hmem

end ProgramArt.Decimal
