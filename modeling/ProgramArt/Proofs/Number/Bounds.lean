import Mathlib
import ProgramArt.Proofs.Number.Binary64

/-!
# Bounds of doubles from below

What is put together, rounded or divided is a number (`isNaN_pack`, `isNaN_div`), and there are two bounds that can be
followed through a computation. Sums, squares and quotients of numbers without a minus sign have none either, however
often they are rounded (`Unsigned`); and the exponent of a number bounds the exponent of its quotients, as rounding
never makes an exponent smaller (`Reaches`).

The facts about packed doubles come with the whole of Mathlib only.
-/

namespace ProgramArt.Binary64

open Float.Model.UnpackedFloat

/-! ## Doubles that are numbers -/

/-- Bits of NaN have a special exponent field and a fraction. -/
theorem fields_of_isNaN {bits : BitVec Float.Model.Format.binary64.numBits}
    (h : (unpack .binary64 bits).isNaN = true) :
    unpackExponent bits = -1#_ ∧ unpackMantissa bits ≠ 0#_ := by
  unfold unpack at h
  dsimp only at h
  by_cases hspecial : unpackExponent bits = -1#_
  · rw [if_pos hspecial] at h
    by_cases hmantissa : unpackMantissa bits = 0#_
    · rw [if_pos hmantissa] at h
      cases h
    · exact ⟨hspecial, hmantissa⟩
  · rw [if_neg hspecial] at h
    split at h
    · split at h <;> cases h
    · cases h

/-- What is packed is NaN only if it was NaN. -/
theorem isNaN_pack {f : Float.Model.UnpackedFloat} (h : f.isNaN = false) : (Float.Model.pack f).isNaN = false := by
  rw [Bool.eq_false_iff]
  intro hnan
  obtain ⟨hexponent, hmantissa⟩ := fields_of_isNaN hnan
  cases f with
  | notANumber => cases h
  | infinity sign =>
    refine hmantissa ?_
    exact unpackMantissa_packComponents
  | zero sign =>
    refine hmantissa ?_
    exact unpackMantissa_packComponents
  | finite sign mantissa exponent hpos =>
    by_cases hsmall : exponent ≤ 971
    · exact unpackExponent_pack_finite hpos hsmall hexponent
    · -- beyond the largest exponent there is only infinity
      refine hmantissa ?_
      have hlarge : 2 ^ 11 ≤ (exponent + (1023 : Nat) + (52 : Nat)).toNat + 1 := by omega
      change unpackMantissa (pack .binary64 (.finite sign mantissa exponent hpos)) = 0#_
      unfold pack
      dsimp only [Float.Model.Format.exponentBias]
      rw [if_pos hlarge]
      exact unpackMantissa_packComponents

theorem isNaN_roundWithAccuracy (spec : Float.Model.Format) (sign : Sign) (mantissa : Nat) (exponent : Int)
    (accuracy : Accuracy) : (roundWithAccuracy spec sign mantissa exponent accuracy).isNaN = false := by
  unfold roundWithAccuracy
  dsimp only
  split <;> rfl

theorem isNaN_normalize (spec : Float.Model.Format) (mantissa exponent : Int) (sign : Sign) :
    (Float.Model.UnpackedFloat.normalize spec mantissa exponent sign).isNaN = false := by
  unfold Float.Model.UnpackedFloat.normalize
  split
  · exact isNaN_roundWithAccuracy _ _ _ _ _
  · rfl
  · exact isNaN_roundWithAccuracy _ _ _ _ _

theorem isNaN_toFloat (n : UInt64) : n.toFloat.isNaN = false := by
  refine isNaN_pack ?_
  exact isNaN_normalize _ _ _ _

/-- A number that is divided by a finite one other than zero is a number. -/
theorem isNaN_div {x y : Float} (hx : x.isNaN = false) {sign : Sign} {mantissa : Nat} {exponent : Int}
    {hpos : 0 < mantissa} (hy : y.toModel.unpack = .finite sign mantissa exponent hpos) :
    (x / y).isNaN = false := by
  change x.toModel.unpack.isNaN = false at hx
  change (Float.Model.pack (div .binary64 x.toModel.unpack y.toModel.unpack)).isNaN = false
  refine isNaN_pack ?_
  rw [hy]
  cases hunpack : x.toModel.unpack with
  | notANumber =>
    rw [hunpack] at hx
    cases hx
  | infinity sign => rfl
  | zero sign => rfl
  | finite sign mantissa exponent hpos => exact isNaN_roundWithAccuracy _ _ _ _ _

/-- What is less than something is a number. -/
theorem isNaN_of_lt {x y : Float} (h : x < y) : x.isNaN = false := by
  change x.toModel.unpack.isNaN = false
  have hmodel : x.toModel < y.toModel := of_decide_eq_true h
  have hless : (x.toModel.unpack.compare y.toModel.unpack == some .lt) = true := hmodel
  cases hunpack : x.toModel.unpack with
  | notANumber =>
    rw [hunpack] at hless
    cases hless
  | _ => rfl

/-! ## Numbers without a minus sign -/

/-- A number without a minus sign, or NaN. -/
inductive Unsigned : Float.Model.UnpackedFloat → Prop
  | nan : Unsigned .notANumber
  | infinity : Unsigned (.infinity .positive)
  | zero : Unsigned (.zero .positive)
  | finite (mantissa : Nat) (exponent : Int) (hpos : 0 < mantissa) :
      Unsigned (.finite .positive mantissa exponent hpos)

/-- The sign of what is unpacked is the sign bit. -/
theorem unsigned_unpack {b : BitVec Float.Model.Format.binary64.numBits}
    (h : Sign.ofBitVec (unpackSign b) = .positive) : Unsigned (unpack .binary64 b) := by
  unfold unpack
  dsimp only
  rw [h]
  split
  · split
    · exact .infinity
    · exact .nan
  · split
    · split
      · exact .zero
      · exact .finite _ _ _
    · exact .finite _ _ _

/-- **Packing keeps the sign**, also of what becomes infinite. -/
theorem Unsigned.pack {f : Float.Model.UnpackedFloat} (h : Unsigned f) :
    Unsigned (Float.Model.pack f).unpack := by
  refine unsigned_unpack (b := Float.Model.UnpackedFloat.pack .binary64 f) ?_
  have hsign : ∀ exponent mantissa,
      Sign.ofBitVec (unpackSign (packComponents .binary64 .positive exponent mantissa)) = .positive := by
    intro exponent mantissa
    rw [unpackSign_packComponents, Sign.ofBitVec_toBitVec]
  cases h with
  | nan => exact hsign _ _
  | infinity => exact hsign _ _
  | zero => exact hsign _ _
  | finite mantissa exponent hpos =>
    unfold Float.Model.UnpackedFloat.pack
    dsimp only
    split
    · exact hsign _ _
    · split <;> exact hsign _ _

theorem unsigned_roundWithAccuracy (mantissa : Nat) (exponent : Int) (accuracy : Accuracy) :
    Unsigned (roundWithAccuracy .binary64 .positive mantissa exponent accuracy) := by
  unfold roundWithAccuracy
  dsimp only
  split
  · exact .zero
  · exact .finite _ _ _

/-- A mantissa that is not negative gives a number without a minus sign. -/
theorem unsigned_normalize {mantissa : Int} (exponent : Int) (h : 0 ≤ mantissa) :
    Unsigned (Float.Model.UnpackedFloat.normalize .binary64 mantissa exponent .positive) := by
  unfold Float.Model.UnpackedFloat.normalize
  split
  · rename_i hlt
    exact absurd (Int.compare_eq_lt.mp hlt) (Int.not_lt.mpr h)
  · exact .zero
  · exact unsigned_roundWithAccuracy _ _ _

theorem unsigned_toFloat (n : UInt64) : Unsigned n.toFloat.toModel.unpack :=
  (unsigned_normalize 0 (Int.natCast_nonneg _)).pack

variable {x y : Float}

theorem unsigned_add (hx : Unsigned x.toModel.unpack) (hy : Unsigned y.toModel.unpack) :
    Unsigned (x + y).toModel.unpack := by
  refine Unsigned.pack (f := add .binary64 x.toModel.unpack y.toModel.unpack) ?_
  generalize x.toModel.unpack = f at hx
  generalize y.toModel.unpack = g at hy
  cases hx <;> cases hy
  case finite.finite => exact unsigned_normalize _ (Int.natCast_nonneg (_ + _))
  all_goals constructor

/-- A square has no minus sign, whatever the sign of its root. -/
theorem unsigned_mul_self (x : Float) : Unsigned (x * x).toModel.unpack := by
  refine Unsigned.pack (f := mul .binary64 x.toModel.unpack x.toModel.unpack) ?_
  cases x.toModel.unpack with
  | notANumber => exact .nan
  | infinity sign => cases sign <;> exact .infinity
  | zero sign => cases sign <;> exact .zero
  | finite sign mantissa exponent hpos =>
    cases sign <;> exact unsigned_roundWithAccuracy _ _ _

theorem unsigned_div (hx : Unsigned x.toModel.unpack) (hy : Unsigned y.toModel.unpack) :
    Unsigned (x / y).toModel.unpack := by
  refine Unsigned.pack (f := div .binary64 x.toModel.unpack y.toModel.unpack) ?_
  generalize x.toModel.unpack = f at hx
  generalize y.toModel.unpack = g at hy
  cases hx <;> cases hy
  case finite.finite => exact unsigned_roundWithAccuracy _ _ _
  all_goals constructor

/-- **A number without a minus sign is not negative.** -/
theorem zero_le_of_unsigned (hx : Unsigned x.toModel.unpack) (hnan : x.isNaN = false) : 0.0 ≤ x := by
  change x.toModel.unpack.isNaN = false at hnan
  refine decide_eq_true ?_
  have hzero : (0.0 : Float).toModel.unpack = .zero .positive := rfl
  change ((0.0 : Float).toModel.unpack.compare x.toModel.unpack).any _ = true
  rw [hzero]
  generalize x.toModel.unpack = f at hx hnan
  cases hx with
  | nan => cases hnan
  | infinity => rfl
  | zero => rfl
  | finite mantissa exponent hpos => rfl

/-- What is less is at most as much. -/
theorem le_of_float_lt (h : x < y) : x ≤ y := by
  have hless : (x.toModel.unpack.compare y.toModel.unpack == some .lt) = true := of_decide_eq_true h
  have hcompare : x.toModel.unpack.compare y.toModel.unpack = some .lt := eq_of_beq hless
  refine decide_eq_true ?_
  change (x.toModel.unpack.compare y.toModel.unpack).any _ = true
  rw [hcompare]
  rfl

/-- What is not negative is not less than what is not positive. -/
theorem not_lt_of_nonneg {x y : Float} (hx : 0.0 ≤ x) (hy : ¬ 0.0 < y) : ¬ x < y := by
  intro hlt
  have hzero : (0.0 : Float).toModel.unpack = .zero .positive := rfl
  have hx : ((0.0 : Float).toModel.unpack.compare x.toModel.unpack).any (·.isLE) = true := of_decide_eq_true hx
  have hlt : (x.toModel.unpack.compare y.toModel.unpack == some .lt) = true := of_decide_eq_true hlt
  have hy : ¬ ((0.0 : Float).toModel.unpack.compare y.toModel.unpack == some .lt) = true := fun h =>
    hy (decide_eq_true h)
  rw [hzero] at hx hy
  generalize x.toModel.unpack = f at hx hlt
  generalize y.toModel.unpack = g at hlt hy
  cases f with
  | notANumber => cases hx
  | zero sign =>
    -- zero is compared as zero, whatever its sign
    cases g with
    | notANumber => exact hy hlt
    | zero sign => exact hy hlt
    | infinity sign => cases sign <;> exact hy hlt
    | finite sign mantissa exponent hpos => cases sign <;> exact hy hlt
  | infinity sign =>
    cases sign with
    | negative => cases hx
    | positive =>
      cases g with
      | infinity sign => cases sign <;> cases hlt
      | notANumber | zero sign | finite sign mantissa exponent hpos => cases hlt
  | finite sign mantissa exponent hpos =>
    cases sign with
    | negative => cases hx
    | positive =>
      -- only a positive number is more, and then it is more than zero
      cases g with
      | notANumber => cases hlt
      | zero sign => cases hlt
      | infinity sign =>
        cases sign with
        | negative => cases hlt
        | positive => exact hy rfl
      | finite sign mantissa exponent hpos =>
        cases sign with
        | negative => cases hlt
        | positive => exact hy rfl

/-! ## Numbers of at least a given size -/

/-- A positive number whose leading bit stands for at least two to the power of `low + 52`. -/
inductive Reaches (low : Int) : Float.Model.UnpackedFloat → Prop
  | infinity : Reaches low (.infinity .positive)
  | finite {mantissa : Nat} {exponent : Int} (hpos : 0 < mantissa) (hfull : 2 ^ 52 ≤ mantissa)
      (hlt : mantissa < 2 ^ 53) (hlow : low ≤ exponent) :
      Reaches low (.finite .positive mantissa exponent hpos)

theorem Reaches.mono {low low' : Int} {f : Float.Model.UnpackedFloat} (h : Reaches low' f)
    (hle : low ≤ low') : Reaches low f := by
  cases h with
  | infinity => exact .infinity
  | finite hpos hfull hlt hlow => exact .finite hpos hfull hlt (Int.le_trans hle hlow)

/-- Shifting drops the last bits of the mantissa. -/
theorem mantissa_shiftRight (extended : ExtendedMantissa) (n : Nat) :
    (extended >>> n).mantissa = extended.mantissa / 2 ^ n := by
  change (n.repeat ExtendedMantissa.shiftRightOne extended).mantissa = _
  induction n with
  | zero => rw [Nat.pow_zero, Nat.div_one]; rfl
  | succ n ih =>
    rw [Nat.pow_succ, ← Nat.div_div_eq_div_mul, ← ih]
    rfl

theorem mantissa_ofMantissaAndAccuracy (mantissa : Nat) (accuracy : Accuracy) :
    (ExtendedMantissa.ofMantissaAndAccuracy mantissa accuracy).mantissa = mantissa := by
  obtain _ | order := accuracy
  · rfl
  · cases order <;> rfl

/-- Rounding never makes a mantissa smaller. -/
theorem le_roundedMantissa (extended : ExtendedMantissa) :
    extended.mantissa ≤ extended.roundedMantissa := by
  unfold ExtendedMantissa.roundedMantissa Accuracy.roundToNearestEven
  split <;> omega

/-- A mantissa of 53 bits or more is cut down to 53 bits, and its exponent becomes no smaller. -/
theorem shiftToTargetExponent_full {mantissa : Nat} {exponent : Int} (accuracy : Accuracy)
    (hfull : 2 ^ 52 ≤ mantissa) (hleast : -1074 ≤ exponent) :
    ∃ extended shifted, shiftToTargetExponent .binary64 mantissa exponent accuracy = (extended, shifted)
      ∧ 2 ^ 52 ≤ extended.mantissa ∧ extended.mantissa < 2 ^ 53 ∧ exponent ≤ shifted := by
  have hne : mantissa ≠ 0 := by omega
  have hlog : 52 ≤ mantissa.log2 := (Nat.le_log2 hne).mpr hfull
  have htarget : Float.Model.Format.binary64.targetExponent (Float.Model.totalExponent mantissa exponent)
      = exponent + (mantissa.log2 - 52 : Nat) := by
    change max ((mantissa.log2 : Int) + 1 + exponent - 53) (-1074) = _
    omega
  refine ⟨_, _, rfl, ?_⟩
  have hshift : (exponent + (mantissa.log2 - 52 : Nat) - exponent).toNat = mantissa.log2 - 52 := by omega
  rw [htarget, hshift, mantissa_shiftRight, mantissa_ofMantissaAndAccuracy]
  have hsplit : 2 ^ mantissa.log2 = 2 ^ 52 * 2 ^ (mantissa.log2 - 52) := by
    rw [← Nat.pow_add]
    congr 1
    omega
  refine ⟨?_, ?_, by omega⟩
  · rw [Nat.le_div_iff_mul_le (Nat.two_pow_pos _), ← hsplit]
    exact Nat.log2_self_le hne
  · rw [Nat.div_lt_iff_lt_mul (Nat.two_pow_pos _)]
    have hlt : mantissa < 2 ^ (mantissa.log2 + 1) := Nat.lt_log2_self
    rw [Nat.pow_succ, hsplit] at hlt
    omega

/-- **Rounding never makes a full exponent smaller.** -/
theorem reaches_roundWithAccuracy {mantissa : Nat} {exponent : Int} (accuracy : Accuracy)
    (hfull : 2 ^ 52 ≤ mantissa) (hleast : -1074 ≤ exponent) :
    Reaches exponent (roundWithAccuracy .binary64 .positive mantissa exponent accuracy) := by
  obtain ⟨cut, e₁, hcut, hfull₁, _, he₁⟩ := shiftToTargetExponent_full accuracy hfull hleast
  have hround : cut.mantissa ≤ cut.roundedMantissa := le_roundedMantissa cut
  have hleast₁ : -1074 ≤ e₁ := Int.le_trans hleast he₁
  obtain ⟨last, e₂, hlast, hfull₂, hlt₂, he₂⟩ :=
    shiftToTargetExponent_full .exact (Nat.le_trans hfull₁ hround) hleast₁
  have hne : last.mantissa ≠ 0 := by omega
  unfold roundWithAccuracy
  dsimp only
  rw [hcut]
  dsimp only
  rw [hlast, dif_neg hne]
  exact .finite _ hfull₂ hlt₂ (by omega)

theorem log2_full {mantissa : Nat} (hfull : 2 ^ 52 ≤ mantissa) (hlt : mantissa < 2 ^ 53) :
    mantissa.log2 = 52 := by
  have hge : 52 ≤ mantissa.log2 := (Nat.le_log2 (by omega)).mpr hfull
  have hle : mantissa.log2 < 53 := (Nat.log2_lt (by omega)).mpr hlt
  omega

/-- The leading one is put back in front of the other 52 bits. -/
theorem toNat_one_append {mantissa : Nat} (hfull : 2 ^ 52 ≤ mantissa) (hlt : mantissa < 2 ^ 53) :
    (1#1 ++ BitVec.ofNat 52 mantissa).toNat = mantissa := by
  have hlow : (BitVec.ofNat 52 mantissa).toNat < 2 ^ 52 := (BitVec.ofNat 52 mantissa).isLt
  rw [BitVec.toNat_append, ← Nat.shiftLeft_add_eq_or_of_lt hlow, Nat.shiftLeft_eq, BitVec.toNat_ofNat]
  change 1 * 2 ^ 52 + mantissa % 2 ^ 52 = mantissa
  omega

/-- A number of full mantissa is packed without its leading one. -/
theorem pack_full {sign : Sign} {mantissa field : Nat} (hpos : 0 < mantissa) (hfull : 2 ^ 52 ≤ mantissa)
    (hlt : mantissa < 2 ^ 53) (hfield : field < 2047) :
    pack .binary64 (.finite sign mantissa (field - 1075) hpos)
      = packComponents .binary64 sign (BitVec.ofNat 11 field) (BitVec.ofNat 52 mantissa) := by
  have hlog : mantissa.log2 + 1 = Float.Model.Format.binary64.mantissaBits :=
    congrArg (· + 1) (log2_full hfull hlt)
  have hbiased : ((field : Int) - 1075 + (1023 : Nat) + (52 : Nat)).toNat = field := by omega
  have hsmall : ¬ 2 ^ 11 ≤ field + 1 := by omega
  unfold pack
  dsimp only [Float.Model.Format.exponentBias]
  rw [if_pos hlog, hbiased, if_neg hsmall]

/-- What is packed without its leading one is unpacked with it. -/
theorem unpack_full {sign : Sign} {mantissa field : Nat} (hpos : 0 < mantissa) (hfull : 2 ^ 52 ≤ mantissa)
    (hlt : mantissa < 2 ^ 53) (hnormal : 0 < field) (hfield : field < 2047) :
    unpack .binary64 (packComponents .binary64 sign (BitVec.ofNat 11 field) (BitVec.ofNat 52 mantissa))
      = .finite sign mantissa (field - 1075) hpos := by
  have hbits : (BitVec.ofNat 11 field).toNat = field := by
    rw [BitVec.toNat_ofNat]
    omega
  have hspecial : BitVec.ofNat 11 field ≠ -1#11 := by
    intro heq
    have hall : field = 2047 := hbits.symm.trans (congrArg BitVec.toNat heq)
    omega
  have hzero : BitVec.ofNat 11 field ≠ 0#11 := by
    intro heq
    have hnone : field = 0 := hbits.symm.trans (congrArg BitVec.toNat heq)
    omega
  unfold unpack
  simp only [unpackMantissa_packComponents, unpackExponent_packComponents, unpackSign_packComponents,
    Sign.ofBitVec_toBitVec]
  rw [if_neg hspecial, if_neg hzero]
  simp only [hbits, toNat_one_append hfull hlt]
  rfl

/-- Packing keeps a number of full mantissa, or makes it infinite. -/
theorem Reaches.pack {low : Int} {f : Float.Model.UnpackedFloat} (hleast : -1074 ≤ low) (h : Reaches low f) :
    Reaches low (Float.Model.pack f).unpack := by
  cases h with
  | infinity => exact .infinity
  | finite hpos hfull hlt hlow =>
    rename_i mantissa exponent
    by_cases hgreatest : exponent ≤ 971
    · change Reaches low (unpack .binary64 (Float.Model.UnpackedFloat.pack .binary64 _))
      obtain ⟨field, rfl⟩ : ∃ field : Nat, exponent = field - 1075 := ⟨(exponent + 1075).toNat, by omega⟩
      rw [pack_full hpos hfull hlt (by omega), unpack_full hpos hfull hlt (by omega) (by omega)]
      exact .finite hpos hfull hlt hlow
    · have hbiased : 2 ^ 11 ≤ (exponent + (1023 : Nat) + (52 : Nat)).toNat + 1 := by omega
      change Reaches low (unpack .binary64 (Float.Model.UnpackedFloat.pack .binary64 _))
      unfold Float.Model.UnpackedFloat.pack
      dsimp only [Float.Model.Format.exponentBias]
      rw [if_pos hbiased]
      exact .infinity

/-- The quotient by a number of full mantissa. -/
theorem reaches_div {x y : Float} {low exponent : Int} {mantissa : Nat} {hpos : 0 < mantissa}
    (hx : Reaches low x.toModel.unpack) (hy : y.toModel.unpack = .finite .positive mantissa exponent hpos)
    (hfull : 2 ^ 52 ≤ mantissa) (hlt : mantissa < 2 ^ 53) (hleast : -1074 ≤ low - exponent - 53) :
    Reaches (low - exponent - 53) (x / y).toModel.unpack := by
  refine Reaches.pack hleast (f := div .binary64 x.toModel.unpack y.toModel.unpack) ?_
  rw [hy]
  generalize x.toModel.unpack = f at hx
  cases hx with
  | infinity => exact .infinity
  | finite hpos₁ hfull₁ hlt₁ hlow =>
    rename_i mantissa₁ exponent₁
    have htarget : min (exponent₁ - exponent) (Float.Model.Format.binary64.targetExponent
        (Float.Model.totalExponent mantissa₁ exponent₁ - Float.Model.totalExponent mantissa exponent))
        = exponent₁ - exponent - 53 := by
      change min _ (max ((mantissa₁.log2 : Int) + 1 + exponent₁ - (mantissa.log2 + 1 + exponent) - 53) (-1074))
        = _
      rw [log2_full hfull hlt, log2_full hfull₁ hlt₁]
      omega
    have hshift : (exponent₁ - exponent - (exponent₁ - exponent - 53)).toNat = 53 := by omega
    -- 53 more places make up for the division
    have hquotient : 2 ^ 52 ≤ mantissa₁ <<< 53 / mantissa := by
      rw [Nat.le_div_iff_mul_le hpos, Nat.shiftLeft_eq]
      exact Nat.mul_le_mul hfull₁ (Nat.le_of_lt hlt)
    change Reaches _ (roundWithAccuracy .binary64 .positive
      (divCore .binary64 mantissa₁ exponent₁ mantissa exponent).1
      (divCore .binary64 mantissa₁ exponent₁ mantissa exponent).2.1
      (divCore .binary64 mantissa₁ exponent₁ mantissa exponent).2.2)
    unfold divCore
    dsimp only
    rw [htarget, hshift]
    exact (reaches_roundWithAccuracy _ hquotient (by omega)).mono (by omega)

/-- **What reaches an exponent exceeds every double with a smaller one.** -/
theorem lt_of_reaches {x y : Float} {low exponent : Int} {mantissa : Nat} {hpos : 0 < mantissa}
    (hx : Reaches low x.toModel.unpack) (hy : y.toModel.unpack = .finite .positive mantissa exponent hpos)
    (hlow : exponent < low) : y < x := by
  refine decide_eq_true ?_
  change (y.toModel.unpack.compare x.toModel.unpack == some .lt) = true
  rw [hy]
  generalize x.toModel.unpack = f at hx
  cases hx with
  | infinity => rfl
  | finite hpos₁ hfull hlt hle =>
    rename_i mantissa₁ exponent₁
    have hcompare : compare exponent exponent₁ = .lt := Int.compare_eq_lt.mpr (by omega)
    change (some ((compare exponent exponent₁).then (compare mantissa mantissa₁)) == some .lt) = true
    rw [hcompare]
    rfl

end ProgramArt.Binary64
