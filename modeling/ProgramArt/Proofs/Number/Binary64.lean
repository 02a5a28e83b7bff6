import Mathlib.Algebra.Group.Nat.Defs
import ProgramArt.Number.Binary64

/-!
# Integers that have a double

A double is finite exactly when its exponent field does not mark it as special, and rounding keeps the magnitude bits
of what is not too large below that mark (`isFinite_roundRatio`). So each integer of at most 64 bits has a double view
(`exists_ofInt?`).
-/

namespace ProgramArt.Binary64

open Float.Model.UnpackedFloat

/-! ## Finite doubles -/

/-- What is unpacked from bits is finite unless their exponent field is all ones. -/
theorem isFinite_unpack {bits : BitVec Float.Model.Format.binary64.numBits}
    (h : unpackExponent bits ≠ -1#_) : (unpack .binary64 bits).isFinite = true := by
  unfold unpack
  dsimp only
  rw [if_neg h]
  by_cases hzero : unpackExponent bits = 0#_
  · rw [if_pos hzero]
    by_cases hmantissa : unpackMantissa bits = 0#_
    · rw [dif_pos hmantissa]
      rfl
    · rw [dif_neg hmantissa]
      rfl
  · rw [if_neg hzero]
    rfl

/-- A finite number keeps a finite exponent field when it is packed, if its exponent is in range. -/
theorem unpackExponent_pack_finite {sign : Sign} {mantissa : Nat} {exponent : Int} (hpos : 0 < mantissa)
    (h : exponent ≤ 971) :
    unpackExponent (pack .binary64 (.finite sign mantissa exponent hpos)) ≠ -1#_ := by
  have hbiased : (exponent + (1023 : Nat) + (52 : Nat)).toNat + 1 < 2 ^ 11 := by omega
  unfold pack
  dsimp only [Float.Model.Format.exponentBias]
  rw [if_neg (Nat.not_le.mpr hbiased)]
  split
  · rw [unpackExponent_packComponents]
    intro heq
    have hfield := congrArg BitVec.toNat heq
    change (exponent + (1023 : Nat) + (52 : Nat)).toNat % 2 ^ 11 = 2047 at hfield
    omega
  · rw [unpackExponent_packComponents]
    decide

/-- The exponent field of bits, as a number. -/
theorem toNat_unpackExponent (bits : UInt64) :
    (@unpackExponent .binary64 bits.toBitVec).toNat = bits.toNat / 2 ^ fractionBits % 2 ^ 11 := by
  simp [unpackExponent, fractionBits, Nat.shiftRight_eq_div_pow]

/-- Packing what was unpacked from finite bits gives finite bits. -/
theorem unpackExponent_pack_unpack {bits : BitVec Float.Model.Format.binary64.numBits}
    (h : unpackExponent bits ≠ -1#_) : unpackExponent (pack .binary64 (unpack .binary64 bits)) ≠ -1#_ := by
  have hfield : (unpackExponent bits).toNat ≤ 2046 := by
    have hlt : (unpackExponent bits).toNat < 2048 := (unpackExponent bits).isLt
    have hne : (unpackExponent bits).toNat ≠ 2047 := fun heq => h (BitVec.toNat_inj.mp heq)
    omega
  unfold unpack
  dsimp only
  rw [if_neg h]
  by_cases hzero : unpackExponent bits = 0#_
  · rw [if_pos hzero, hzero]
    by_cases hmantissa : unpackMantissa bits = 0#_
    · rw [dif_pos hmantissa]
      show unpackExponent (packComponents .binary64 _ 0 0) ≠ -1#_
      rw [unpackExponent_packComponents]
      decide
    · rw [dif_neg hmantissa]
      exact unpackExponent_pack_finite _ (by decide)
  · rw [if_neg hzero]
    apply unpackExponent_pack_finite
    change ((unpackExponent bits).toNat : Int) - ((1023 : Nat) + (52 : Nat)) ≤ 971
    omega

/-- Bits whose exponent field does not mark them as special are those of a finite double. -/
theorem isFinite_ofBits {bits : UInt64} (h : bits.toNat / 2 ^ fractionBits % 2 ^ 11 ≠ specialField) :
    (Float.ofBits bits).isFinite = true := by
  have hexponent : @unpackExponent .binary64 bits.toBitVec ≠ -1#_ := by
    intro heq
    apply h
    rw [← toNat_unpackExponent, heq]
    rfl
  exact isFinite_unpack (unpackExponent_pack_unpack hexponent)

/-- **Magnitude bits below those of infinity make a finite double.** -/
theorem isFinite_ofMagnitude {magnitude : Nat} (negative : Bool) (h : magnitude < infiniteMagnitude) :
    (ofMagnitude negative magnitude).isFinite = true := by
  apply isFinite_ofBits
  simp only [infiniteMagnitude, specialField, fractionBits, Nat.pow_eq] at h ⊢
  rw [UInt64.toNat_ofNat']
  split <;> omega

/-! ## Rounding -/

/-- Rounding a quotient adds at most one to its whole part. -/
theorem roundQuotient_le (num den : Nat) : roundQuotient num den ≤ num / den + 1 := by
  unfold roundQuotient
  dsimp only
  split
  · omega
  · split <;> omega

/-- With denominator one the estimate of the logarithm needs no correction. -/
theorem floorLog2_one {num : Nat} (h : num ≠ 0) : floorLog2 num 1 = num.log2 := by
  have hfits : 2 ^ num.log2 ≤ num := Nat.log2_self_le h
  have hone : Nat.log2 1 = 0 := by decide
  simp [floorLog2, Nat.shiftLeft_eq, hone, hfits]

/-- Dividing a number by all but its 53 leading bits, and rounding, leaves at most 53 bits or a power
of two. -/
theorem roundQuotient_shift_le {num exponent : Nat} (h : num.log2 = exponent + 52) :
    roundQuotient num (1 <<< exponent) ≤ 2 ^ 53 := by
  have hlt : num < 2 ^ 53 * 2 ^ exponent := by
    rw [← Nat.pow_add, show 53 + exponent = num.log2 + 1 by omega]
    exact Nat.lt_log2_self
  have hdiv : num / 2 ^ exponent < 2 ^ 53 := (Nat.div_lt_iff_lt_mul (Nat.two_pow_pos _)).mpr hlt
  have hround := roundQuotient_le num (1 <<< exponent)
  rw [Nat.one_shiftLeft] at hround ⊢
  omega

/-- Filling a number up to 53 bits leaves nothing to round. -/
theorem roundQuotient_fill_le {num fill : Nat} (h : num.log2 + fill = 52) :
    roundQuotient (num <<< fill) 1 ≤ 2 ^ 53 := by
  have hlt : num <<< fill < 2 ^ 53 := by
    rw [Nat.shiftLeft_eq, show 53 = num.log2 + 1 + fill by omega, Nat.pow_add]
    exact Nat.mul_lt_mul_of_pos_right Nat.lt_log2_self (Nat.two_pow_pos _)
  have hround := roundQuotient_le (num <<< fill) 1
  rw [Nat.div_one] at hround
  omega

/-- **A number of at most 64 bits rounds to a finite double.** -/
theorem isFinite_roundRatio (negative : Bool) {num : Nat} (h : num < 2 ^ 64) :
    (roundRatio negative num 1).isFinite = true := by
  unfold roundRatio
  by_cases hnum : num = 0
  · rw [if_pos hnum]
    exact isFinite_ofMagnitude negative (by decide)
  · have hlog : num.log2 < 64 := (Nat.log2_lt hnum).mpr h
    have hexponent : max minExponent ((num.log2 : Int) - fractionBits) = (num.log2 : Int) - 52 := by
      simp only [minExponent, fractionBits]
      omega
    rw [if_neg hnum, floorLog2_one hnum, hexponent]
    apply isFinite_ofMagnitude
    split
    · have hround := roundQuotient_shift_le
        (show num.log2 = ((num.log2 : Int) - 52).toNat + 52 by omega)
      simp only [infiniteMagnitude, specialField, minExponent, fractionBits, Nat.pow_eq]
      omega
    · have hround := roundQuotient_fill_le
        (show num.log2 + (-((num.log2 : Int) - 52)).toNat = 52 by omega)
      simp only [infiniteMagnitude, specialField, minExponent, fractionBits, Nat.pow_eq]
      omega

/-! ## Integers -/

/-- **Every integer of at most 64 bits has a double.** -/
theorem exists_ofInt? {n : Int} (h : n.natAbs < 2 ^ 64) : ∃ x, ofInt? n = some x := by
  refine ⟨roundRatio (decide (n < 0)) n.natAbs 1, ?_⟩
  rw [ofInt?, if_pos (isFinite_roundRatio _ h)]

end ProgramArt.Binary64
