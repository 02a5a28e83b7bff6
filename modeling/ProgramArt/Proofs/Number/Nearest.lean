import Mathlib
import ProgramArt.Proofs.Number.Binary64

/-!
# Rounding to the nearest double

A finite double is a mantissa and an exponent (`Canonical`), and it stands for all numbers that are nearer to it than
to any other double. This module shows that rounding finds the double again from every such number (`roundRatio_eq`),
ties included: they belong to the even mantissa. Below a power of two the doubles lie twice as close, so there the
numbers that round to it reach only half as far.

The facts about packed doubles come with the whole of Mathlib only.
-/

namespace ProgramArt.Binary64

open Float.Model.UnpackedFloat

/-! ## What kind of number a double is -/

theorem unpackExponent_eq_iff (bits : UInt64) :
    @unpackExponent .binary64 bits.toBitVec = -1#_
      ↔ bits.toNat / Nat.pow 2 fractionBits % Nat.pow 2 11 = specialField := by
  rw [← BitVec.toNat_inj, toNat_unpackExponent]
  rfl

theorem unpackMantissa_eq_zero_iff (bits : UInt64) :
    @unpackMantissa .binary64 bits.toBitVec = 0#_ ↔ bits.toNat % Nat.pow 2 fractionBits = 0 := by
  have hfield : (@unpackMantissa .binary64 bits.toBitVec).toNat = bits.toNat % 2 ^ fractionBits := by
    simp [unpackMantissa, fractionBits]
  rw [← BitVec.toNat_inj, hfield]
  rfl

/-- The parts of a double and its model tell the same kind. -/
theorem unpack_of_parts (x : Float) :
    (parts x = .nan ∧ x.toModel.unpack = .notANumber)
      ∨ (∃ negative sign, parts x = .infinite negative ∧ x.toModel.unpack = .infinity sign)
      ∨ ∃ negative mantissa exponent, parts x = .finite negative mantissa exponent
        ∧ x.toModel.unpack.isFinite = true := by
  have hexponent := unpackExponent_eq_iff x.toBits
  have hmantissa := unpackMantissa_eq_zero_iff x.toBits
  rw [show x.toModel.unpack = unpack .binary64 x.toBits.toBitVec from rfl, parts, partsOfBits]
  by_cases hspecial : x.toBits.toNat / Nat.pow 2 fractionBits % Nat.pow 2 11 = specialField
  · rw [if_pos hspecial, unpack]
    dsimp only
    rw [if_pos (hexponent.mpr hspecial)]
    by_cases hzero : x.toBits.toNat % Nat.pow 2 fractionBits = 0
    · rw [if_pos hzero, if_pos (hmantissa.mpr hzero)]
      exact .inr (.inl ⟨_, _, rfl, rfl⟩)
    · rw [if_neg hzero, if_neg (mt hmantissa.mp hzero)]
      exact .inl ⟨rfl, rfl⟩
  · have hfinite := isFinite_unpack (mt hexponent.mp hspecial)
    rw [if_neg hspecial]
    split <;> exact .inr (.inr ⟨_, _, _, rfl, hfinite⟩)

theorem isNaN_iff {x : Float} : x.isNaN = true ↔ parts x = .nan := by
  change x.toModel.unpack.isNaN = true ↔ _
  obtain ⟨hparts, hx⟩ | ⟨_, _, hparts, hx⟩ | ⟨_, _, _, hparts, hx⟩ := unpack_of_parts x
  · simp [hparts, hx, isNaN]
  · simp [hparts, hx, isNaN]
  · cases hunpack : x.toModel.unpack <;> simp_all [isNaN, isFinite]

theorem isInf_iff {x : Float} : x.isInf = true ↔ ∃ negative, parts x = .infinite negative := by
  change x.toModel.unpack.isInf = true ↔ _
  obtain ⟨hparts, hx⟩ | ⟨_, _, hparts, hx⟩ | ⟨_, _, _, hparts, hx⟩ := unpack_of_parts x
  · simp [hparts, hx, isInf]
  · simp [hparts, hx, isInf]
  · cases hunpack : x.toModel.unpack <;> simp_all [isInf, isFinite]

/-! ## Magnitudes of finite doubles -/

/-- A mantissa and an exponent as a finite double has them: the mantissa has 53 bits, or fewer at the least
exponent. -/
structure Canonical (mantissa : Nat) (exponent : Int) : Prop where
  lt : mantissa < 2 ^ 53
  least : -1074 ≤ exponent
  greatest : exponent ≤ 971
  normal : mantissa < 2 ^ 52 → exponent = -1074

/-- The magnitude bits of a finite double. -/
def magnitudeOf (mantissa : Nat) (exponent : Int) : Nat :=
  (exponent - minExponent).toNat * Nat.pow 2 fractionBits + mantissa

/-- The two fields of the bits of a finite double: an exponent field of zero is that of the least exponent,
and every other one adds a leading bit to the mantissa. -/
theorem fields_of_parts {x : Float} {negative : Bool} {mantissa : Nat} {exponent : Int}
    (h : parts x = .finite negative mantissa exponent) :
    ∃ field fraction, field < 2047 ∧ fraction < 2 ^ 52
      ∧ x.toBits.toNat = (if negative then 2 ^ 63 else 0) + field * 2 ^ 52 + fraction
      ∧ ((field = 0 ∧ mantissa = fraction ∧ exponent = -1074)
        ∨ (0 < field ∧ mantissa = fraction + 2 ^ 52 ∧ exponent = field - 1075)) := by
  have hword := x.toBits.toNat_lt
  rw [parts, partsOfBits] at h
  refine ⟨x.toBits.toNat / 2 ^ 52 % 2 ^ 11, x.toBits.toNat % 2 ^ 52, ?_⟩
  by_cases hspecial : x.toBits.toNat / Nat.pow 2 fractionBits % Nat.pow 2 11 = specialField
  · rw [if_pos hspecial] at h
    split at h <;> cases h
  · rw [if_neg hspecial] at h
    by_cases hfield : x.toBits.toNat / Nat.pow 2 fractionBits % Nat.pow 2 11 = 0
    · rw [if_pos hfield] at h
      cases h
      simp only [fractionBits, specialField, Nat.pow_eq, decide_eq_true_eq] at hspecial hfield ⊢
      refine ⟨by omega, by omega, by split <;> omega, .inl ⟨hfield, trivial, rfl⟩⟩
    · rw [if_neg hfield] at h
      cases h
      simp only [fractionBits, specialField, minExponent, Nat.pow_eq, decide_eq_true_eq]
        at hspecial hfield ⊢
      refine ⟨by omega, by omega, by split <;> omega, .inr ⟨by omega, trivial, by omega⟩⟩

theorem canonical_of_parts {x : Float} {negative : Bool} {mantissa : Nat} {exponent : Int}
    (h : parts x = .finite negative mantissa exponent) : Canonical mantissa exponent := by
  obtain ⟨field, fraction, hfield, hfraction, _, ⟨_, rfl, rfl⟩ | ⟨_, rfl, rfl⟩⟩ := fields_of_parts h
  · exact ⟨by omega, by omega, by omega, fun _ => rfl⟩
  · exact ⟨by omega, by omega, by omega, by omega⟩

/-- **A finite double is put together from its parts.** -/
theorem eq_ofMagnitude_of_parts {x : Float} {negative : Bool} {mantissa : Nat} {exponent : Int}
    (h : parts x = .finite negative mantissa exponent) :
    x = ofMagnitude negative (magnitudeOf mantissa exponent) := by
  obtain ⟨field, fraction, _, _, hbits, hfields⟩ := fields_of_parts h
  have hword : x.toBits.toNat
      = if negative then Nat.pow 2 63 + magnitudeOf mantissa exponent else magnitudeOf mantissa exponent := by
    rw [hbits, magnitudeOf]
    simp only [minExponent, fractionBits, Nat.pow_eq]
    obtain ⟨rfl, rfl, rfl⟩ | ⟨_, rfl, rfl⟩ := hfields <;> split <;> omega
  rw [ofMagnitude, ← hword, UInt64.ofNat_toNat, Float.ofBits_toBits]

theorem eq_infinity_of_parts {x : Float} {negative : Bool} (h : parts x = .infinite negative) :
    x = infinity negative := by
  have hword : x.toBits.toNat
      = if negative then Nat.pow 2 63 + infiniteMagnitude else infiniteMagnitude := by
    have hsize := x.toBits.toNat_lt
    rw [parts, partsOfBits] at h
    split at h
    · rename_i hspecial
      split at h
      · rename_i hfraction
        cases h
        simp only [fractionBits, specialField, infiniteMagnitude, Nat.pow_eq, decide_eq_true_eq]
          at hspecial hfraction ⊢
        split <;> omega
      · cases h
    · split at h <;> cases h
  rw [infinity, ofMagnitude, ← hword, UInt64.ofNat_toNat, Float.ofBits_toBits]

/-- Bits that are not those of NaN are kept. -/
theorem toBits_ofBits {bits : UInt64}
    (h : bits.toNat / Nat.pow 2 fractionBits % Nat.pow 2 11 = specialField →
      bits.toNat % Nat.pow 2 fractionBits = 0) : (Float.ofBits bits).toBits = bits := by
  have hbits : @isNaNBits .binary64 bits.toBitVec = false := by
    refine decide_eq_false ?_
    rintro ⟨hexponent, hmantissa⟩
    exact hmantissa ((unpackMantissa_eq_zero_iff bits).mpr (h ((unpackExponent_eq_iff bits).mp hexponent)))
  have hpack := @pack_unpack .binary64 bits.toBitVec
  rw [hbits, if_neg (by simp)] at hpack
  exact UInt64.toBitVec_inj.mp hpack

/-- The bits of NaN have a special exponent field and a fraction. -/
theorem fields_of_partsOfBits_nan {bits : UInt64} (h : partsOfBits bits = .nan) :
    bits.toNat / Nat.pow 2 fractionBits % Nat.pow 2 11 = specialField
      ∧ bits.toNat % Nat.pow 2 fractionBits ≠ 0 := by
  rw [partsOfBits] at h
  by_cases hspecial : bits.toNat / Nat.pow 2 fractionBits % Nat.pow 2 11 = specialField
  · rw [if_pos hspecial] at h
    split at h
    · cases h
    · exact ⟨hspecial, ‹_›⟩
  · rw [if_neg hspecial] at h
    split at h <;> cases h

/-- **Magnitude bits up to those of infinity make a number.** -/
theorem isNaN_ofMagnitude {magnitude : Nat} (negative : Bool) (h : magnitude ≤ infiniteMagnitude) :
    (ofMagnitude negative magnitude).isNaN = false := by
  simp only [infiniteMagnitude, specialField, fractionBits, Nat.pow_eq] at h
  have hword : (UInt64.ofNat (if negative then Nat.pow 2 63 + magnitude else magnitude)).toNat
      = if negative then Nat.pow 2 63 + magnitude else magnitude := by
    rw [UInt64.toNat_ofNat', Nat.mod_eq_of_lt]
    simp only [Nat.pow_eq]
    split <;> omega
  rw [Bool.eq_false_iff, ne_eq, isNaN_iff, parts, ofMagnitude]
  generalize UInt64.ofNat (if negative then Nat.pow 2 63 + magnitude else magnitude) = bits at hword
  have hfields : bits.toNat / Nat.pow 2 fractionBits % Nat.pow 2 11 = specialField →
      bits.toNat % Nat.pow 2 fractionBits = 0 := by
    intro hspecial
    simp only [specialField, fractionBits, Nat.pow_eq] at hword hspecial ⊢
    split at hword <;> omega
  rw [toBits_ofBits hfields]
  intro hnan
  obtain ⟨hspecial, hfraction⟩ := fields_of_partsOfBits_nan hnan
  exact hfraction (hfields hspecial)

/-! ## Between two numbers -/

/-- A number lies between two others, which count when `closed` says so. -/
def Between (closed : Bool) (low high x : ℚ) : Prop :=
  match closed with
  | true => low ≤ x ∧ x ≤ high
  | false => low < x ∧ x < high

namespace Between

variable {closed : Bool} {low high x : ℚ}

theorem le (h : Between closed low high x) : low ≤ x ∧ x ≤ high := by
  cases closed with
  | true => exact h
  | false => exact ⟨h.1.le, h.2.le⟩

theorem mono {low' high' : ℚ} (h : Between closed low high x) (hlow : low' ≤ low) (hhigh : high ≤ high') :
    Between closed low' high' x := by
  cases closed with
  | true => exact ⟨hlow.trans h.1, h.2.trans hhigh⟩
  | false => exact ⟨hlow.trans_lt h.1, h.2.trans_le hhigh⟩

theorem div {unit : ℚ} (hunit : 0 < unit) (h : Between closed (low * unit) (high * unit) x) :
    Between closed low high (x / unit) := by
  cases closed with
  | true => exact ⟨(le_div_iff₀ hunit).mpr h.1, (div_le_iff₀ hunit).mpr h.2⟩
  | false => exact ⟨(lt_div_iff₀ hunit).mpr h.1, (div_lt_iff₀ hunit).mpr h.2⟩

end Between

/-! ## Rounding -/

/-- **A quotient that is nearest to a whole number rounds to it.** The two ties belong to an even number. -/
theorem roundQuotient_eq {num den nearest : Nat} (hden : 0 < den)
    (h : Between (nearest % 2 = 0) (nearest - 1 / 2) (nearest + 1 / 2) ((num : ℚ) / den)) :
    roundQuotient num den = nearest := by
  have hden' : (0 : ℚ) < den := by exact_mod_cast hden
  have hsplit : den * (num / den) + num % den = num := Nat.div_add_mod num den
  have hrest : num % den < den := Nat.mod_lt num hden
  -- without fractions: twice the numerator lies within one denominator of twice the whole number
  have hlow : 2 * nearest * den ≤ 2 * num + den := by
    have hle := h.le.1
    rw [le_div_iff₀ hden'] at hle
    have hcast : (2 * nearest * den : ℚ) ≤ 2 * num + den := by linarith
    exact_mod_cast hcast
  have hhigh : 2 * num ≤ 2 * nearest * den + den := by
    have hle := h.le.2
    rw [div_le_iff₀ hden'] at hle
    have hcast : (2 * num : ℚ) ≤ 2 * nearest * den + den := by linarith
    exact_mod_cast hcast
  have hodd : nearest % 2 = 1 → 2 * nearest * den < 2 * num + den ∧ 2 * num < 2 * nearest * den + den := by
    intro hmod
    rw [decide_eq_false (by omega : ¬ nearest % 2 = 0)] at h
    obtain ⟨hl, hh⟩ := h
    rw [lt_div_iff₀ hden'] at hl
    rw [div_lt_iff₀ hden'] at hh
    have hl' : (2 * nearest * den : ℚ) < 2 * num + den := by linarith
    have hh' : (2 * num : ℚ) < 2 * nearest * den + den := by linarith
    exact ⟨by exact_mod_cast hl', by exact_mod_cast hh'⟩
  have hle : num / den ≤ nearest := by
    by_contra hlt
    have hmul : den * (nearest + 1) ≤ den * (num / den) := Nat.mul_le_mul_left den (by omega)
    have hexpand : den * (nearest + 1) = nearest * den + den := by ring
    have hassoc : 2 * nearest * den = 2 * (nearest * den) := by ring
    omega
  have hge : nearest ≤ num / den + 1 := by
    by_contra hlt
    have hmul : den * (num / den + 2) ≤ den * nearest := Nat.mul_le_mul_left den (by omega)
    have hexpand : den * (num / den + 2) = den * (num / den) + 2 * den := by ring
    have hassoc : 2 * nearest * den = 2 * (den * nearest) := by ring
    omega
  unfold roundQuotient
  dsimp only
  obtain rfl | rfl : nearest = num / den ∨ nearest = num / den + 1 := by omega
  · have hassoc : 2 * (num / den) * den = 2 * (den * (num / den)) := by ring
    split
    · rfl
    · split <;> omega
  · have hassoc : 2 * (num / den + 1) * den = 2 * (den * (num / den)) + 2 * den := by ring
    split
    · omega
    · split <;> omega

/-- A power of two is compared with a quotient without division, whatever the sign of its exponent. -/
theorem two_zpow_le_div_iff {num den : Nat} (hden : 0 < den) (guess : Int) :
    (if 0 ≤ guess then den <<< guess.toNat ≤ num else den ≤ num <<< (-guess).toNat)
      ↔ (2 : ℚ) ^ guess ≤ (num : ℚ) / den := by
  have hden' : (0 : ℚ) < den := by exact_mod_cast hden
  rw [le_div_iff₀ hden']
  split
  · rename_i hguess
    obtain ⟨k, rfl⟩ := Int.eq_ofNat_of_zero_le hguess
    rw [Int.toNat_natCast, Nat.shiftLeft_eq, zpow_natCast, mul_comm]
    exact_mod_cast Iff.rfl
  · rename_i hguess
    obtain ⟨k, hk⟩ := Int.eq_ofNat_of_zero_le (show 0 ≤ -guess by omega)
    rw [hk, show guess = -(k : Int) by omega, Int.toNat_natCast, Nat.shiftLeft_eq, zpow_neg, zpow_natCast,
      inv_mul_le_iff₀ (by positivity), mul_comm]
    exact_mod_cast Iff.rfl

/-- The logarithm of a positive quotient. -/
theorem floorLog2_spec {num den : Nat} (hnum : 0 < num) (hden : 0 < den) :
    (2 : ℚ) ^ floorLog2 num den ≤ (num : ℚ) / den
      ∧ (num : ℚ) / den < 2 ^ (floorLog2 num den + 1) := by
  have hden' : (0 : ℚ) < den := by exact_mod_cast hden
  have hnumLow : (2 : ℚ) ^ (num.log2 : Int) ≤ num := by
    exact_mod_cast Nat.log2_self_le hnum.ne'
  have hnumHigh : (num : ℚ) < 2 ^ ((num.log2 : Int) + 1) := by
    exact_mod_cast Nat.lt_log2_self
  have hdenLow : (2 : ℚ) ^ (den.log2 : Int) ≤ den := by
    exact_mod_cast Nat.log2_self_le hden.ne'
  have hdenHigh : (den : ℚ) < 2 ^ ((den.log2 : Int) + 1) := by
    exact_mod_cast Nat.lt_log2_self
  -- the estimate is at most one too large
  have habove : (num : ℚ) / den < 2 ^ ((num.log2 : Int) - den.log2 + 1) := by
    rw [div_lt_iff₀ hden']
    calc (num : ℚ) < 2 ^ ((num.log2 : Int) + 1) := hnumHigh
      _ = 2 ^ ((num.log2 : Int) - den.log2 + 1) * 2 ^ (den.log2 : Int) := by
        rw [← zpow_add₀ two_ne_zero]
        congr 1
        ring
      _ ≤ 2 ^ ((num.log2 : Int) - den.log2 + 1) * den := by gcongr
  have hbelow : (2 : ℚ) ^ ((num.log2 : Int) - den.log2 - 1) ≤ (num : ℚ) / den := by
    rw [le_div_iff₀ hden']
    calc (2 : ℚ) ^ ((num.log2 : Int) - den.log2 - 1) * den
        ≤ 2 ^ ((num.log2 : Int) - den.log2 - 1) * 2 ^ ((den.log2 : Int) + 1) := by gcongr
      _ = 2 ^ (num.log2 : Int) := by
        rw [← zpow_add₀ two_ne_zero]
        congr 1
        ring
      _ ≤ num := hnumLow
  have hvalue : floorLog2 num den
      = if (2 : ℚ) ^ ((num.log2 : Int) - den.log2) ≤ (num : ℚ) / den
        then (num.log2 : Int) - den.log2 else (num.log2 : Int) - den.log2 - 1 := by
    unfold floorLog2
    exact if_congr (two_zpow_le_div_iff hden _) rfl rfl
  rw [hvalue]
  split
  · rename_i hle
    exact ⟨hle, habove⟩
  · rename_i hlt
    rw [sub_add_cancel]
    exact ⟨hbelow, not_le.mp hlt⟩

/-- The mantissa at an exponent is the whole number nearest to the quotient in units of that exponent. -/
theorem roundMantissa_eq {num den nearest : Nat} {exponent : Int} (hden : 0 < den)
    (h : Between (nearest % 2 = 0) (nearest - 1 / 2) (nearest + 1 / 2) ((num : ℚ) / den / 2 ^ exponent)) :
    (if 0 ≤ exponent then roundQuotient num (den <<< exponent.toNat)
      else roundQuotient (num <<< (-exponent).toNat) den) = nearest := by
  split
  · rename_i hexponent
    obtain ⟨k, rfl⟩ := Int.eq_ofNat_of_zero_le hexponent
    rw [Int.toNat_natCast, Nat.shiftLeft_eq]
    refine roundQuotient_eq (by positivity) ?_
    rw [zpow_natCast, div_div] at h
    exact_mod_cast h
  · rename_i hexponent
    obtain ⟨k, hk⟩ := Int.eq_ofNat_of_zero_le (show 0 ≤ -exponent by omega)
    rw [hk, Int.toNat_natCast, Nat.shiftLeft_eq]
    refine roundQuotient_eq hden ?_
    rw [show exponent = -(k : Int) by omega, zpow_neg, zpow_natCast, div_inv_eq_mul, div_mul_eq_mul_div] at h
    exact_mod_cast h

/-- The part of a unit that separates a mantissa from the numbers below it that round to it: half of it, and
a quarter where the numbers below have a smaller exponent. -/
def gapBelow (mantissa : Nat) (exponent : Int) : ℚ :=
  if mantissa = 2 ^ 52 ∧ -1074 < exponent then 1 / 4 else 1 / 2

/-- The logarithm is determined by the powers of two around the quotient. -/
theorem floorLog2_eq {num den : Nat} {k : Int} (hnum : 0 < num) (hden : 0 < den)
    (hlow : (2 : ℚ) ^ k ≤ (num : ℚ) / den) (hhigh : (num : ℚ) / den < 2 ^ (k + 1)) :
    floorLog2 num den = k := by
  obtain ⟨hle, hlt⟩ := floorLog2_spec hnum hden
  have habove : floorLog2 num den < k + 1 := (zpow_lt_zpow_iff_right₀ one_lt_two).mp (hle.trans_lt hhigh)
  have hbelow : k < floorLog2 num den + 1 := (zpow_lt_zpow_iff_right₀ one_lt_two).mp (hlow.trans_lt hlt)
  omega

/-- Rounding at the exponent that the logarithm gives. -/
theorem roundRatio_of_nearest {nearest num den : Nat} {exponent : Int} (negative : Bool) (hnum : 0 < num)
    (hden : 0 < den) (hexponent : max minExponent (floorLog2 num den - fractionBits) = exponent)
    (h : Between (nearest % 2 = 0) (nearest - 1 / 2) (nearest + 1 / 2) ((num : ℚ) / den / 2 ^ exponent))
    (hsmall : magnitudeOf nearest exponent ≤ infiniteMagnitude) :
    roundRatio negative num den = ofMagnitude negative (magnitudeOf nearest exponent) := by
  unfold roundRatio
  rw [if_neg hnum.ne', hexponent]
  dsimp only
  rw [roundMantissa_eq hden h]
  change ofMagnitude negative (min (magnitudeOf nearest exponent) infiniteMagnitude) = _
  rw [Nat.min_eq_left hsmall]

theorem magnitudeOf_lt {mantissa : Nat} {exponent : Int} (h : Canonical mantissa exponent) :
    magnitudeOf mantissa exponent < infiniteMagnitude := by
  obtain ⟨hlt, hleast, hgreatest, _⟩ := h
  simp only [magnitudeOf, infiniteMagnitude, specialField, minExponent, fractionBits, Nat.pow_eq]
  omega

theorem gapBelow_le (mantissa : Nat) (exponent : Int) : gapBelow mantissa exponent ≤ 1 / 2 := by
  unfold gapBelow
  split <;> norm_num

/-- Just below a power of two the exponent is smaller by one, and the mantissa rounds up to the next power. -/
theorem roundRatio_below_power {num den : Nat} {exponent : Int} (negative : Bool)
    (hcanonical : Canonical (2 ^ 52) exponent) (hexponent : exponent ≠ -1074) (hnum : 0 < num) (hden : 0 < den)
    (hlow : ((2 : ℚ) ^ 53 - 1 / 2) * 2 ^ (exponent - 1) ≤ (num : ℚ) / den)
    (hsmaller : (num : ℚ) / den < 2 ^ (exponent + 52)) :
    roundRatio negative num den = ofMagnitude negative (magnitudeOf (2 ^ 52) exponent) := by
  have hleast := hcanonical.least
  have hlog : floorLog2 num den = exponent + 51 := by
    refine floorLog2_eq hnum hden ?_ (by rwa [show exponent + 51 + 1 = exponent + 52 by ring])
    refine le_trans ?_ hlow
    rw [show exponent + 51 = 52 + (exponent - 1) by ring, zpow_add₀ two_ne_zero]
    apply mul_le_mul_of_nonneg_right _ (by positivity)
    norm_num
  have hfound : max minExponent (floorLog2 num den - fractionBits) = exponent - 1 := by
    simp only [minExponent, fractionBits]
    omega
  -- the two ways to write the power of two have the same bits
  have hsame : magnitudeOf (2 ^ 53) (exponent - 1) = magnitudeOf (2 ^ 52) exponent := by
    simp only [magnitudeOf, minExponent, fractionBits, Nat.pow_eq]
    omega
  rw [← hsame]
  refine roundRatio_of_nearest negative hnum hden hfound ?_ (by rw [hsame]; exact (magnitudeOf_lt hcanonical).le)
  rw [decide_eq_true (by norm_num)]
  apply Between.div (by positivity)
  refine ⟨?_, ?_⟩
  · exact_mod_cast hlow
  · refine hsmaller.le.trans ?_
    rw [show exponent + 52 = 53 + (exponent - 1) by ring, zpow_add₀ two_ne_zero]
    apply mul_le_mul_of_nonneg_right _ (by positivity)
    norm_num

/-- **What lies nearest to a double rounds to it.** -/
theorem roundRatio_eq {mantissa num den : Nat} {exponent : Int} (negative : Bool)
    (hcanonical : Canonical mantissa exponent) (hpos : 0 < mantissa) (hden : 0 < den)
    (h : Between (mantissa % 2 = 0) ((mantissa - gapBelow mantissa exponent) * 2 ^ exponent)
      ((mantissa + 1 / 2) * 2 ^ exponent) ((num : ℚ) / den)) :
    roundRatio negative num den = ofMagnitude negative (magnitudeOf mantissa exponent) := by
  obtain ⟨hmantissa, hleast, hgreatest, hnormal⟩ := id hcanonical
  have hunit : (0 : ℚ) < 2 ^ exponent := by positivity
  have hgap := gapBelow_le mantissa exponent
  have hone : (1 : ℚ) ≤ mantissa := by exact_mod_cast hpos
  have hmax : (mantissa : ℚ) ≤ 2 ^ 53 - 1 := by
    have hle : mantissa + 1 ≤ 2 ^ 53 := hmantissa
    have hcast : (mantissa : ℚ) + 1 ≤ 2 ^ 53 := by exact_mod_cast hle
    linarith
  have hnum : 0 < num := by
    have hquotient : (0 : ℚ) < num / den :=
      lt_of_lt_of_le (mul_pos (by linarith) hunit) h.le.1
    rcases Nat.eq_zero_or_pos num with rfl | hnum
    · simp at hquotient
    · exact hnum
  have hbelow : (num : ℚ) / den < 2 ^ (exponent + 53) := by
    rw [zpow_add₀ two_ne_zero, mul_comm]
    calc (num : ℚ) / den ≤ (mantissa + 1 / 2) * 2 ^ exponent := h.le.2
      _ < 2 ^ (53 : Int) * 2 ^ exponent := by
        apply mul_lt_mul_of_pos_right _ hunit
        rw [show (2 : ℚ) ^ (53 : Int) = 2 ^ 53 by norm_num]
        linarith
  by_cases hbinade : exponent = -1074 ∨ (2 : ℚ) ^ (exponent + 52) ≤ (num : ℚ) / den
  · -- the exponent is found again, and the mantissa is the nearest whole number
    have hexponent : max minExponent (floorLog2 num den - fractionBits) = exponent := by
      simp only [minExponent, fractionBits]
      rcases hbinade with rfl | hbinade
      · have hlog := (zpow_lt_zpow_iff_right₀ (one_lt_two (α := ℚ))).mp
          ((floorLog2_spec hnum hden).1.trans_lt hbelow)
        omega
      · have hlog := floorLog2_eq hnum hden hbinade
          (by rwa [show exponent + 52 + 1 = exponent + 53 by ring])
        omega
    refine roundRatio_of_nearest negative hnum hden hexponent ?_ (magnitudeOf_lt hcanonical).le
    exact (h.div hunit).mono (by linarith) le_rfl
  · -- the quotient lies below the least mantissa of the exponent, so that one is the nearest
    rw [not_or, not_le] at hbinade
    obtain ⟨hexponent, hsmaller⟩ := hbinade
    have hpower : mantissa = 2 ^ 52 := by
      by_contra hne
      have hlarge : 2 ^ 52 + 1 ≤ mantissa := by omega
      have hcast : (2 : ℚ) ^ 52 + 1 ≤ mantissa := by exact_mod_cast hlarge
      have hle := h.le.1.trans hsmaller.le
      rw [add_comm exponent, zpow_add₀ two_ne_zero] at hle
      have := le_of_mul_le_mul_right hle hunit
      rw [show (2 : ℚ) ^ (52 : Int) = 2 ^ 52 by norm_num] at this
      linarith
    subst hpower
    have hquarter : gapBelow (2 ^ 52) exponent = 1 / 4 := by
      rw [gapBelow, if_pos ⟨rfl, by omega⟩]
    rw [hquarter] at h
    have hhalf : (2 : ℚ) ^ exponent = 2 * 2 ^ (exponent - 1) := by
      rw [← zpow_one_add₀ two_ne_zero]
      congr 1
      ring
    refine roundRatio_below_power negative hcanonical hexponent hnum hden ?_ hsmaller
    refine le_trans (le_of_eq ?_) h.le.1
    rw [hhalf]
    push_cast
    ring

/-- A rounded quotient is a number or an infinity. -/
theorem isNaN_roundRatio (negative : Bool) (num den : Nat) : (roundRatio negative num den).isNaN = false := by
  unfold roundRatio
  split
  · exact isNaN_ofMagnitude negative (Nat.zero_le _)
  · exact isNaN_ofMagnitude negative (Nat.min_le_right _ _)

end ProgramArt.Binary64
