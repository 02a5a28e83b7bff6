import ProgramArt.Proofs.Number.Bounds
import ProgramArt.Proofs.Number.Order

/-!
# Rounding in the order of numbers

Rounding a greater number never gives a smaller double (`value_nearest_mono`): at one exponent the nearest whole
number is monotone, and a greater exponent has a full mantissa. A double is the nearest one to its own number, so that
rounding neither passes nor is passed by a double. Integers of up to fifty-three bits are doubles themselves
(`value_nearest_int`), and every double without a fraction is the integer that is left of it when its fraction is
dropped (`truncateParts_eq`).
-/

namespace ProgramArt.Binary64

/-! ## Bits in the order of numbers -/

/-- Every magnitude below infinity is made of a mantissa and an exponent. -/
theorem exists_canonical {magnitude : Nat} (h : magnitude < infiniteMagnitude) :
    ∃ mantissa exponent, Canonical mantissa exponent ∧ magnitudeOf mantissa exponent = magnitude := by
  simp only [infiniteMagnitude, specialField, fractionBits, Nat.pow_eq] at h
  by_cases hsmall : magnitude < 2 ^ 52
  · refine ⟨magnitude, -1074, ⟨by omega, by omega, by omega, fun _ => rfl⟩, ?_⟩
    simp [magnitudeOf, minExponent]
  · refine ⟨magnitude % 2 ^ 52 + 2 ^ 52, (magnitude / 2 ^ 52 : Nat) - 1075,
      ⟨by omega, by omega, by omega, by omega⟩, ?_⟩
    simp only [magnitudeOf, minExponent, fractionBits, Nat.pow_eq]
    omega

/-- The parts of a double whose exponent field is not special. -/
theorem partsOfBits_eq {bits : UInt64} {negative : Bool} {field fraction : Nat}
    (hbits : bits.toNat = (if negative then 2 ^ 63 else 0) + field * 2 ^ 52 + fraction)
    (hfield : field < 2047) (hfraction : fraction < 2 ^ 52) :
    partsOfBits bits
      = if field = 0 then .finite negative fraction (-1074)
        else .finite negative (fraction + 2 ^ 52) (field - 1075) := by
  have hsign : decide (Nat.pow 2 63 ≤ bits.toNat) = negative := by
    rw [hbits, Nat.pow_eq]
    cases negative <;> simp <;> omega
  have hexponent : bits.toNat / Nat.pow 2 fractionBits % Nat.pow 2 11 = field := by
    rw [hbits, fractionBits, Nat.pow_eq, Nat.pow_eq]
    split <;> omega
  have hmantissa : bits.toNat % Nat.pow 2 fractionBits = fraction := by
    rw [hbits, fractionBits, Nat.pow_eq]
    split <;> omega
  unfold partsOfBits
  dsimp only
  rw [hsign, hexponent, hmantissa, if_neg (by rw [specialField]; omega)]
  by_cases hzero : field = 0
  · rw [if_pos hzero, if_pos hzero]
    rfl
  · rw [if_neg hzero, if_neg hzero]
    congr 1
    simp only [minExponent]
    omega

/-- A mantissa and an exponent are found again in the bits made of them. -/
theorem parts_ofMagnitude (negative : Bool) {mantissa : Nat} {exponent : Int}
    (h : Canonical mantissa exponent) :
    parts (ofMagnitude negative (magnitudeOf mantissa exponent)) = .finite negative mantissa exponent := by
  obtain ⟨hlt, hleast, hgreatest, hnormal⟩ := h
  have hword : (UInt64.ofNat (if negative then Nat.pow 2 63 + magnitudeOf mantissa exponent
      else magnitudeOf mantissa exponent)).toNat
        = (if negative then 2 ^ 63 else 0) + (exponent + 1074).toNat * 2 ^ 52 + mantissa := by
    simp only [magnitudeOf, minExponent, fractionBits, Nat.pow_eq]
    rw [UInt64.toNat_ofNat']
    split <;> omega
  rw [parts, ofMagnitude, toBits_ofBits]
  · by_cases hsmall : mantissa < 2 ^ 52
    · -- the field of the least exponent is zero
      have hexponent := hnormal hsmall
      rw [partsOfBits_eq hword (by omega) hsmall, if_pos (by omega), hexponent]
    · -- any other field is counted one higher, as the leading bit of the mantissa is added to it
      have hlead : (exponent + 1074).toNat * 2 ^ 52 + mantissa
          = (exponent + 1075).toNat * 2 ^ 52 + (mantissa - 2 ^ 52) := by omega
      rw [Nat.add_assoc, hlead, ← Nat.add_assoc] at hword
      rw [partsOfBits_eq hword (by omega) (by omega), if_neg (by omega),
        Nat.sub_add_cancel (Nat.not_lt.mp hsmall),
        show ((exponent + 1075).toNat : Int) - 1075 = exponent by omega]
  · rw [hword, specialField, fractionBits, Nat.pow_eq, Nat.pow_eq]
    split <;> omega

/-- The order of the bits is the order of the numbers. -/
theorem le_of_magnitudeOf_le {m n : Nat} {e f : Int} (hm : Canonical m e) (hn : Canonical n f)
    (h : magnitudeOf m e ≤ magnitudeOf n f) : (m : ℚ) * 2 ^ e ≤ n * 2 ^ f := by
  simp only [magnitudeOf, minExponent, fractionBits, Nat.pow_eq] at h
  have hmnormal := hm.normal
  have hmleast := hm.least
  have hnleast := hn.least
  have hnlt := hn.lt
  rcases lt_trichotomy e f with hlt | rfl | hgt
  · exact (lt_of_exponent_lt hm hn hlt).le
  · have hle : (m : ℚ) ≤ n := by
      have : m ≤ n := by omega
      exact_mod_cast this
    gcongr
  · omega

/-! ## Rounding quotients -/

/-- **A quotient lies nearest to the whole number that it rounds to.** -/
theorem roundQuotient_between {den : Nat} (num : Nat) (hden : 0 < den) :
    Between (roundQuotient num den % 2 = 0) (roundQuotient num den - 1 / 2)
      (roundQuotient num den + 1 / 2) ((num : ℚ) / den) := by
  have hden' : (0 : ℚ) < den := by exact_mod_cast hden
  have hsplit : den * (num / den) + num % den = num := Nat.div_add_mod num den
  have hrest : num % den < den := Nat.mod_lt num hden
  -- without fractions: twice the numerator lies within one denominator of twice the whole number
  have hnear : 2 * (den * roundQuotient num den) ≤ 2 * num + den
      ∧ 2 * num ≤ 2 * (den * roundQuotient num den) + den
      ∧ (roundQuotient num den % 2 ≠ 0 → 2 * (den * roundQuotient num den) < 2 * num + den
        ∧ 2 * num < 2 * (den * roundQuotient num den) + den) := by
    unfold roundQuotient
    dsimp only
    split
    · omega
    · split
      · rw [Nat.mul_add]
        omega
      · rcases Nat.mod_two_eq_zero_or_one (num / den) with heven | hodd
        · rw [heven, Nat.add_zero]
          omega
        · rw [hodd, Nat.mul_add]
          omega
  generalize roundQuotient num den = nearest at hnear
  obtain ⟨hlow, hhigh, hodd⟩ := hnear
  unfold Between
  by_cases heven : nearest % 2 = 0
  · rw [decide_eq_true heven]
    have hlow' : (2 * (den * nearest) : ℚ) ≤ 2 * num + den := by exact_mod_cast hlow
    have hhigh' : (2 * num : ℚ) ≤ 2 * (den * nearest) + den := by exact_mod_cast hhigh
    exact ⟨(le_div_iff₀ hden').mpr (by linarith), (div_le_iff₀ hden').mpr (by linarith)⟩
  · rw [decide_eq_false heven]
    obtain ⟨hlow, hhigh⟩ := hodd heven
    have hlow' : (2 * (den * nearest) : ℚ) < 2 * num + den := by exact_mod_cast hlow
    have hhigh' : (2 * num : ℚ) < 2 * (den * nearest) + den := by exact_mod_cast hhigh
    exact ⟨(lt_div_iff₀ hden').mpr (by linarith), (div_lt_iff₀ hden').mpr (by linarith)⟩

/-- Of two numbers the smaller one lies nearest to a whole number that is no greater. -/
theorem Between.le_of_le {m n : Nat} {p q : ℚ} (hm : Between (m % 2 = 0) (m - 1 / 2) (m + 1 / 2) p)
    (hn : Between (n % 2 = 0) (n - 1 / 2) (n + 1 / 2) q) (h : p ≤ q) : m ≤ n := by
  by_contra hlt
  have hstep : (n : ℚ) + 1 ≤ m := by exact_mod_cast Nat.not_le.mp hlt
  have hlow := hm.le.1
  have hhigh := hn.le.2
  -- both numbers are the tie between neighbours, which only the even one of them includes
  have hnext : (m : ℚ) = n + 1 := by linarith
  have hsucc : m = n + 1 := by exact_mod_cast hnext
  rcases Nat.mod_two_eq_zero_or_one n with heven | hodd
  · rw [decide_eq_false (by omega : ¬ m % 2 = 0)] at hm
    have := hm.1
    linarith
  · rw [decide_eq_false (by omega : ¬ n % 2 = 0)] at hn
    have := hn.2
    linarith

/-- The exponent at which a quotient is rounded. -/
def unitOf (num den : Nat) : Int := max minExponent (floorLog2 num den - fractionBits)

/-- The magnitude bits of a rounded quotient. -/
def roundedBits (num den : Nat) : Nat :=
  if num = 0 then 0
  else
    min (magnitudeOf
      (if 0 ≤ unitOf num den then roundQuotient num (den <<< (unitOf num den).toNat)
        else roundQuotient (num <<< (-unitOf num den).toNat) den) (unitOf num den)) infiniteMagnitude

theorem roundRatio_eq_ofMagnitude (negative : Bool) (num den : Nat) :
    roundRatio negative num den = ofMagnitude negative (roundedBits num den) := by
  unfold roundRatio roundedBits
  split <;> rfl

theorem roundedBits_le (num den : Nat) : roundedBits num den ≤ infiniteMagnitude := by
  unfold roundedBits
  split
  · exact Nat.zero_le _
  · exact Nat.min_le_right _ _

/-- The mantissa at an exponent is the whole number nearest to the quotient in units of that exponent. -/
theorem roundMantissa_between {den : Nat} (num : Nat) (hden : 0 < den) (exponent : Int) :
    ∃ mantissa, (if 0 ≤ exponent then roundQuotient num (den <<< exponent.toNat)
        else roundQuotient (num <<< (-exponent).toNat) den) = mantissa
      ∧ Between (mantissa % 2 = 0) (mantissa - 1 / 2) (mantissa + 1 / 2)
        ((num : ℚ) / den / 2 ^ exponent) := by
  refine ⟨_, rfl, ?_⟩
  split
  · rename_i hexponent
    obtain ⟨k, rfl⟩ := Int.eq_ofNat_of_zero_le hexponent
    have hnear := roundQuotient_between num (show 0 < den <<< k by rw [Nat.shiftLeft_eq]; positivity)
    rw [Int.toNat_natCast, zpow_natCast, div_div]
    rw [Nat.shiftLeft_eq] at hnear ⊢
    exact_mod_cast hnear
  · rename_i hexponent
    obtain ⟨k, hk⟩ := Int.eq_ofNat_of_zero_le (show 0 ≤ -exponent by omega)
    have hnear := roundQuotient_between (num <<< k) hden
    rw [hk, Int.toNat_natCast, show exponent = -(k : Int) by omega, zpow_neg, zpow_natCast, div_inv_eq_mul,
      div_mul_eq_mul_div]
    rw [Nat.shiftLeft_eq] at hnear ⊢
    exact_mod_cast hnear

/-- The bits of a rounded quotient hold the nearest mantissa, which has a leading bit above the least
exponent. -/
theorem exists_mantissa {num den : Nat} (hnum : 0 < num) (hden : 0 < den) :
    ∃ mantissa, roundedBits num den = min (magnitudeOf mantissa (unitOf num den)) infiniteMagnitude
      ∧ Between (mantissa % 2 = 0) (mantissa - 1 / 2) (mantissa + 1 / 2)
        ((num : ℚ) / den / 2 ^ unitOf num den)
      ∧ mantissa ≤ 2 ^ 53 ∧ (unitOf num den ≠ minExponent → 2 ^ 52 ≤ mantissa) := by
  obtain ⟨mantissa, hmantissa, hnear⟩ := roundMantissa_between num hden (unitOf num den)
  refine ⟨mantissa, by rw [roundedBits, if_neg hnum.ne', hmantissa], hnear, ?_, ?_⟩
  · -- in its unit the quotient has at most 53 bits
    have hlt : (num : ℚ) / den / 2 ^ unitOf num den < 2 ^ 53 := by
      rw [div_lt_iff₀ (by positivity)]
      calc (num : ℚ) / den < 2 ^ (floorLog2 num den + 1) := (floorLog2_spec hnum hden).2
        _ ≤ 2 ^ (53 + unitOf num den) := by
          apply zpow_le_zpow_right₀ one_le_two
          simp only [unitOf, fractionBits]
          omega
        _ = 2 ^ 53 * 2 ^ unitOf num den := by
          rw [zpow_add₀ two_ne_zero]
          norm_num
    have hlow := hnear.le.1
    have hcast : (mantissa : ℚ) < 2 ^ 53 + 1 := by linarith
    have hle : mantissa < 2 ^ 53 + 1 := by exact_mod_cast hcast
    omega
  · -- and it has all of them unless the unit is the least one
    intro hunit
    have hge : (2 : ℚ) ^ 52 ≤ (num : ℚ) / den / 2 ^ unitOf num den := by
      rw [le_div_iff₀ (by positivity)]
      have hexponent : unitOf num den + 52 = floorLog2 num den := by
        simp only [unitOf, fractionBits] at hunit ⊢
        omega
      calc (2 : ℚ) ^ 52 * 2 ^ unitOf num den = 2 ^ (unitOf num den + 52) := by
            rw [zpow_add₀ two_ne_zero, mul_comm]
            norm_num
        _ ≤ (num : ℚ) / den := by
            rw [hexponent]
            exact (floorLog2_spec hnum hden).1
    have hhigh := hnear.le.2
    have hcast : (2 : ℚ) ^ 52 < mantissa + 1 := by linarith
    have hle : 2 ^ 52 < mantissa + 1 := by exact_mod_cast hcast
    omega

theorem unitOf_mono {num den num' den' : Nat} (hnum : 0 < num) (hden : 0 < den) (hnum' : 0 < num')
    (hden' : 0 < den') (h : (num : ℚ) / den ≤ num' / den') : unitOf num den ≤ unitOf num' den' := by
  have hlog : floorLog2 num den < floorLog2 num' den' + 1 :=
    (zpow_lt_zpow_iff_right₀ (one_lt_two (α := ℚ))).mp
      ((floorLog2_spec hnum hden).1.trans_lt (h.trans_lt (floorLog2_spec hnum' hden').2))
  simp only [unitOf]
  omega

/-- The bits of rounded quotients are in the order of the quotients. -/
theorem roundedBits_mono {num den num' den' : Nat} (hden : 0 < den) (hden' : 0 < den')
    (h : (num : ℚ) / den ≤ num' / den') : roundedBits num den ≤ roundedBits num' den' := by
  rcases Nat.eq_zero_or_pos num with rfl | hnum
  · exact Nat.zero_le _
  have hnum' : 0 < num' := by
    have hpos : (0 : ℚ) < num' / den' := lt_of_lt_of_le (by positivity) h
    rcases Nat.eq_zero_or_pos num' with rfl | hnum'
    · simp at hpos
    · exact hnum'
  obtain ⟨m, hbits, hnear, hm, -⟩ := exists_mantissa hnum hden
  obtain ⟨n, hbits', hnear', -, hn⟩ := exists_mantissa hnum' hden'
  have hunit := unitOf_mono hnum hden hnum' hden' h
  have hleast : minExponent ≤ unitOf num den := Int.le_max_left _ _
  rw [hbits, hbits']
  refine min_le_min_right _ ?_
  rcases hunit.eq_or_lt with hsame | hless
  · -- at one exponent the mantissas are rounded alike
    rw [← hsame] at hnear' ⊢
    have hle : m ≤ n := hnear.le_of_le hnear' (by gcongr)
    exact Nat.add_le_add_left hle _
  · -- a greater exponent has a full mantissa
    have hfull := hn (by omega)
    simp only [magnitudeOf, minExponent, fractionBits, Nat.pow_eq] at hleast ⊢
    omega

/-! ## The nearest double -/

/-- The double nearest to a number. -/
def nearest (q : ℚ) : Float := roundRatio (decide (q < 0)) q.num.natAbs q.den

theorem value_zero (negative : Bool) : value (ofMagnitude negative 0) = ((0 : ℚ) : WithTop ℚ) := by
  have hparts : ∀ negative, parts (ofMagnitude negative 0) = .finite negative 0 (-1074) := by decide
  rw [value_of_finite (hparts negative)]
  simp [scaled]

/-- Without a sign doubles are in the order of their magnitudes, and with a sign in the opposite one. -/
theorem value_ofMagnitude_le {low high : Nat} (h : low ≤ high) (hhigh : high ≤ infiniteMagnitude) :
    value (ofMagnitude false low) ≤ value (ofMagnitude false high)
      ∧ value (ofMagnitude true high) ≤ value (ofMagnitude true low) := by
  have hinfinite : ∀ negative, parts (infinity negative) = .infinite negative := by decide
  rcases hhigh.eq_or_lt with rfl | hhigh
  · change value _ ≤ value (infinity false) ∧ value (infinity true) ≤ value _
    rw [value_of_infinite (hinfinite false), value_of_infinite (hinfinite true)]
    exact ⟨le_top, bot_le⟩
  · obtain ⟨m, e, hm, rfl⟩ := exists_canonical (h.trans_lt hhigh)
    obtain ⟨n, f, hn, rfl⟩ := exists_canonical hhigh
    have hle := le_of_magnitudeOf_le hm hn h
    rw [value_of_finite (parts_ofMagnitude false hm), value_of_finite (parts_ofMagnitude true hm),
      value_of_finite (parts_ofMagnitude false hn), value_of_finite (parts_ofMagnitude true hn)]
    simp only [WithBot.coe_le_coe, WithTop.coe_le_coe, scaled]
    simpa using hle

/-- Without a sign a double is not negative, and with a sign it is not positive. -/
theorem value_ofMagnitude_sign {magnitude : Nat} (h : magnitude ≤ infiniteMagnitude) :
    ((0 : ℚ) : WithTop ℚ) ≤ value (ofMagnitude false magnitude)
      ∧ value (ofMagnitude true magnitude) ≤ ((0 : ℚ) : WithTop ℚ) := by
  have hle := value_ofMagnitude_le (Nat.zero_le magnitude) h
  rwa [value_zero, value_zero] at hle

theorem natAbs_num_div_den (q : ℚ) : (q.num.natAbs : ℚ) / q.den = |q| := by
  rw [Nat.cast_natAbs, Int.cast_abs]
  nth_rewrite 3 [← Rat.num_div_den q]
  rw [abs_div, Nat.abs_cast]

theorem isNaN_nearest (q : ℚ) : (nearest q).isNaN = false := isNaN_roundRatio _ _ _

/-- **Rounding is monotone.** -/
theorem value_nearest_mono {p q : ℚ} (h : p ≤ q) : value (nearest p) ≤ value (nearest q) := by
  unfold nearest
  rw [roundRatio_eq_ofMagnitude, roundRatio_eq_ofMagnitude]
  by_cases hp : p < 0
  · rw [decide_eq_true hp]
    by_cases hq : q < 0
    · rw [decide_eq_true hq]
      refine (value_ofMagnitude_le (roundedBits_mono q.den_pos p.den_pos ?_) (roundedBits_le _ _)).2
      rw [natAbs_num_div_den, natAbs_num_div_den, abs_of_neg hp, abs_of_neg hq]
      exact neg_le_neg h
    · rw [decide_eq_false hq]
      exact (value_ofMagnitude_sign (roundedBits_le _ _)).2.trans (value_ofMagnitude_sign (roundedBits_le _ _)).1
  · have hq : ¬ q < 0 := fun hq => hp (h.trans_lt hq)
    rw [decide_eq_false hp, decide_eq_false hq]
    refine (value_ofMagnitude_le (roundedBits_mono p.den_pos q.den_pos ?_) (roundedBits_le _ _)).1
    rw [natAbs_num_div_den, natAbs_num_div_den, abs_of_nonneg (not_lt.mp hp), abs_of_nonneg (not_lt.mp hq)]
    exact h

/-- **A double is nearest to its own number.** -/
theorem nearest_eq {x : Float} {negative : Bool} {mantissa : Nat} {exponent : Int}
    (h : parts x = .finite negative mantissa exponent) (hpos : 0 < mantissa) :
    nearest (scaled negative mantissa exponent) = x := by
  have hunit : (0 : ℚ) < 2 ^ exponent := by positivity
  have hsign : decide (scaled negative mantissa exponent < 0) = negative := by
    have hnumber := mul_two_zpow_pos hpos exponent
    cases negative
    · exact decide_eq_false (by simpa [scaled] using hnumber.le)
    · exact decide_eq_true (by simpa [scaled] using hnumber)
  have habs : |scaled negative mantissa exponent| = mantissa * 2 ^ exponent := by
    cases negative <;> simp [scaled, abs_mul]
  rw [nearest, hsign, eq_ofMagnitude_of_parts h]
  refine roundRatio_eq negative (canonical_of_parts h) hpos (Rat.den_pos _) ?_
  rw [natAbs_num_div_den, habs]
  -- a double lies strictly between the midpoints to its neighbours
  have hgap : 0 < gapBelow mantissa exponent := by
    unfold gapBelow
    split <;> norm_num
  have hlow : (mantissa - gapBelow mantissa exponent) * 2 ^ exponent < mantissa * 2 ^ exponent :=
    mul_lt_mul_of_pos_right (by linarith) hunit
  have hhigh : (mantissa : ℚ) * 2 ^ exponent < (mantissa + 1 / 2) * 2 ^ exponent :=
    mul_lt_mul_of_pos_right (by linarith) hunit
  unfold Between
  split
  · exact ⟨hlow.le, hhigh.le⟩
  · exact ⟨hlow, hhigh⟩

/-- Every number but zero has one double at most, and is rounded to it. -/
theorem nearest_of_value {x : Float} {q : ℚ} (h : value x = (q : WithTop ℚ)) (hq : q ≠ 0) :
    nearest q = x := by
  cases hparts : parts x with
  | nan =>
    rw [value, Magnitude.ofFloat?, hparts] at h
    cases h
  | infinite negative =>
    rw [value_of_infinite hparts] at h
    cases negative <;> cases h
  | finite negative mantissa exponent =>
    rw [value_of_finite hparts, WithBot.coe_inj, WithTop.coe_inj] at h
    rw [← h]
    refine nearest_eq hparts (Nat.pos_of_ne_zero fun hzero => hq ?_)
    rw [← h, hzero]
    simp [scaled]

/-- **A number that a double stands for is rounded to this number.** -/
theorem value_nearest {x : Float} {q : ℚ} (h : value x = (q : WithTop ℚ)) :
    value (nearest q) = (q : WithTop ℚ) := by
  by_cases hq : q = 0
  · rw [hq]
    exact value_zero false
  · rw [nearest_of_value h hq, h]

/-- A number that does not exceed a double is not rounded past it. -/
theorem value_nearest_le {x : Float} {q : ℚ} (h : ((q : WithTop ℚ) : WithBot (WithTop ℚ)) ≤ value x) :
    value (nearest q) ≤ value x := by
  rcases hvalue : value x with _ | _ | r
  · rw [hvalue] at h
    exact absurd h (WithBot.not_coe_le_bot _)
  · exact le_top
  · rw [hvalue] at h
    have hle : q ≤ r := WithTop.coe_le_coe.mp (WithBot.coe_le_coe.mp h)
    exact (value_nearest_mono hle).trans_eq (value_nearest hvalue)

/-- A number that is at least a double is not rounded below it. -/
theorem le_value_nearest {x : Float} {q : ℚ} (h : value x ≤ ((q : WithTop ℚ) : WithBot (WithTop ℚ))) :
    value x ≤ value (nearest q) := by
  rcases hvalue : value x with _ | _ | r
  · exact bot_le
  · rw [hvalue] at h
    exact absurd (WithBot.coe_le_coe.mp h) (WithTop.not_top_le_coe q)
  · rw [hvalue] at h
    have hle : r ≤ q := WithTop.coe_le_coe.mp (WithBot.coe_le_coe.mp h)
    exact (value_nearest hvalue).symm.trans_le (value_nearest_mono hle)

/-! ## Integers as doubles -/

/-- The double view of an integer is the nearest double. -/
theorem ofInt?_eq_nearest {n : Int} (h : n.natAbs < 2 ^ 64) : ofInt? n = some (nearest n) := by
  have hnearest : nearest n = roundRatio (decide (n < 0)) n.natAbs 1 := by
    simp [nearest]
  rw [ofInt?, hnearest]
  exact if_pos (isFinite_roundRatio _ h)

/-- Integers of up to fifty-three bits are the numbers of doubles. -/
theorem exists_value_eq {n : Int} (h : n.natAbs < 2 ^ 53) : ∃ x, value x = ((n : ℚ) : WithTop ℚ) := by
  by_cases hzero : n.natAbs = 0
  · obtain rfl := Int.natAbs_eq_zero.mp hzero
    exact ⟨_, value_zero false⟩
  -- the mantissa is filled up with zeros at its low end
  obtain ⟨fill, hfill⟩ := Nat.exists_eq_add_of_le (show n.natAbs.log2 ≤ 52 by
    have := (Nat.log2_lt hzero).mpr h
    omega)
  have hlow : 2 ^ 52 ≤ n.natAbs * 2 ^ fill := by
    rw [hfill, Nat.pow_add]
    exact Nat.mul_le_mul_right _ (Nat.log2_self_le hzero)
  have hhigh : n.natAbs * 2 ^ fill < 2 ^ 53 := by
    rw [show 53 = n.natAbs.log2 + 1 + fill by omega, Nat.pow_add]
    exact Nat.mul_lt_mul_of_pos_right Nat.lt_log2_self (by positivity)
  have hcanonical : Canonical (n.natAbs * 2 ^ fill) (-(fill : Int)) :=
    ⟨hhigh, by omega, by omega, fun hsmall => absurd hlow (Nat.not_le.mpr hsmall)⟩
  refine ⟨ofMagnitude (decide (n < 0)) _, (value_of_finite (parts_ofMagnitude _ hcanonical)).trans ?_⟩
  have hsign : (if decide (n < 0) = true then -((n.natAbs * 2 ^ fill : Nat) : Int)
      else (n.natAbs * 2 ^ fill : Nat)) = n * 2 ^ fill := by
    push_cast
    split <;> rename_i hneg <;> simp only [decide_eq_true_eq] at hneg
    · rw [abs_of_neg hneg, neg_mul, neg_neg]
    · rw [abs_of_nonneg (not_lt.mp hneg)]
  have hscaled : scaled (decide (n < 0)) (n.natAbs * 2 ^ fill) (-(fill : Int)) = n := by
    rw [scaled, hsign, zpow_neg, zpow_natCast]
    push_cast
    field_simp
  rw [hscaled]

/-- **Integers of up to fifty-three bits are rounded to themselves.** -/
theorem value_nearest_int {n : Int} (h : n.natAbs < 2 ^ 53) :
    value (nearest n) = ((n : ℚ) : WithTop ℚ) := by
  obtain ⟨x, hx⟩ := exists_value_eq h
  exact value_nearest hx

/-! ## Natural numbers as doubles -/

theorem nearest_natCast (n : Nat) : nearest n = ofNat n := by
  have hsign : decide ((n : ℚ) < 0) = false := decide_eq_false (not_lt.mpr n.cast_nonneg)
  rw [nearest, hsign, Rat.num_natCast, Rat.den_natCast, Int.natAbs_natCast, ofNat]

/-- Magnitude bits alone make a double without a minus sign. -/
theorem unsigned_ofMagnitude {magnitude : Nat} (h : magnitude ≤ infiniteMagnitude) :
    Unsigned (ofMagnitude false magnitude).toModel.unpack := by
  rcases h.eq_or_lt with rfl | hlt
  · exact .infinity
  · obtain ⟨m, e, hm, rfl⟩ := exists_canonical hlt
    rw [unpack_of_finite (parts_ofMagnitude false hm)]
    split
    · exact .finite m e _
    · exact .zero

theorem unsigned_ofNat (n : Nat) : Unsigned (ofNat n).toModel.unpack := by
  rw [ofNat, roundRatio_eq_ofMagnitude]
  exact unsigned_ofMagnitude (roundedBits_le n 1)

/-- A double of at least two to the power of `k`. -/
theorem reaches_of_le_value {x : Float} (hnan : x.isNaN = false) {k : Int} (hk : -1022 < k)
    (h : ((2 ^ k : ℚ) : WithTop ℚ) ≤ value x) : Reaches (k - 52) x.toModel.unpack := by
  have hshows := shows_value hnan
  generalize value x = v at h hshows
  generalize x.toModel.unpack = f at hshows
  have hpower : (0 : ℚ) < 2 ^ k := zpow_pos two_pos k
  cases hshows with
  | low => exact absurd h (by simp)
  | high => exact .infinity
  | zero sign => exact absurd (coe_coe_le.mp h) (not_le.mpr hpower)
  | negative hpos hm => exact absurd (coe_coe_le.mp h) (not_le.mpr ((neg_mul_two_zpow_neg hpos _).trans hpower))
  | positive hpos hm =>
    rename_i m e
    -- a mantissa has at most 53 bits
    have hlt : (2 : ℚ) ^ k < 2 ^ (53 + e) := by
      rw [zpow_add₀ two_ne_zero]
      refine (coe_coe_le.mp h).trans_lt (mul_lt_mul_of_pos_right ?_ (zpow_pos two_pos e))
      exact_mod_cast hm.lt
    have he := (zpow_lt_zpow_iff_right₀ one_lt_two).mp hlt
    refine .finite hpos ?_ hm.lt (by omega)
    by_contra hsmall
    have hleast := hm.normal (Nat.not_le.mp hsmall)
    omega

/-- **A natural number from two to the power of `k` on.** -/
theorem reaches_ofNat {n k : Nat} (hk : k ≤ 52) (hn : 2 ^ k ≤ n) : Reaches (k - 52) (ofNat n).toModel.unpack := by
  refine reaches_of_le_value (isNaN_roundRatio _ _ _) (by omega) ?_
  have hexact := value_nearest_int (n := (2 ^ k : Nat)) ?_
  · have hle := value_nearest_mono (p := ((2 ^ k : Nat) : Int)) (q := n) (by exact_mod_cast hn)
    rw [hexact, nearest_natCast] at hle
    exact_mod_cast hle
  · rw [Int.natAbs_natCast]
    exact Nat.pow_lt_pow_right (by decide) (by omega)

/-! ## Doubles as integers -/

/-- At an exponent that is not negative there is no fraction to drop. -/
theorem scaled_eq_truncateParts (negative : Bool) (mantissa : Nat) {exponent : Int} (h : 0 ≤ exponent) :
    scaled negative mantissa exponent = truncateParts negative mantissa exponent := by
  obtain ⟨k, rfl⟩ := Int.eq_ofNat_of_zero_le h
  cases negative <;> simp [scaled, truncateParts, Nat.shiftLeft_eq]

/-- Below that the integer part is smaller than the mantissa. -/
theorem natAbs_truncateParts_lt (negative : Bool) {mantissa : Nat} {exponent : Int}
    (hmantissa : mantissa < 2 ^ 53) (h : exponent < 0) :
    (truncateParts negative mantissa exponent).natAbs < 2 ^ 53 := by
  have hle : mantissa >>> (-exponent).toNat ≤ mantissa := by
    rw [Nat.shiftRight_eq_div_pow]
    exact Nat.div_le_self _ _
  simp only [truncateParts, if_neg (not_le.mpr h)]
  cases negative
  · exact hle.trans_lt hmantissa
  · rw [if_pos rfl, Int.natAbs_neg]
    exact hle.trans_lt hmantissa

/-- **A double without a fraction is the integer that truncation gives.** -/
theorem truncateParts_eq {negative : Bool} {mantissa : Nat} {exponent n : Int}
    (h : scaled negative mantissa exponent = n) : truncateParts negative mantissa exponent = n := by
  by_cases hexponent : 0 ≤ exponent
  · rw [scaled_eq_truncateParts negative mantissa hexponent] at h
    exact_mod_cast h
  · -- the mantissa is a multiple of the power of two that it is divided by
    obtain ⟨k, hk⟩ := Int.eq_ofNat_of_zero_le (show 0 ≤ -exponent by omega)
    obtain rfl : exponent = -(k : Int) := by omega
    have hmultiple : (if negative then -(mantissa : Int) else mantissa) = n * 2 ^ k := by
      rw [scaled, zpow_neg, zpow_natCast, ← div_eq_mul_inv, div_eq_iff (by positivity)] at h
      exact_mod_cast h
    have hmantissa : mantissa = n.natAbs * 2 ^ k := by
      have habs := congrArg Int.natAbs hmultiple
      rw [Int.natAbs_mul, Int.natAbs_pow] at habs
      cases negative <;> simpa using habs
    have hshift : mantissa >>> k = n.natAbs := by
      rw [hmantissa, Nat.shiftRight_eq_div_pow, Nat.mul_div_cancel _ (by positivity)]
    have hpower : (0 : Int) < 2 ^ k := by positivity
    simp only [truncateParts, if_neg hexponent, neg_neg, Int.toNat_natCast, hshift]
    cases negative
    · have hsign : 0 ≤ n * 2 ^ k := hmultiple ▸ Int.natCast_nonneg mantissa
      have hn := nonneg_of_mul_nonneg_left hsign hpower
      simp [abs_of_nonneg hn]
    · have hsign : n * 2 ^ k ≤ 0 := hmultiple ▸ Int.neg_nonpos_of_nonneg (Int.natCast_nonneg mantissa)
      have hn : n ≤ 0 := nonpos_of_mul_nonpos_left hsign hpower
      simp [abs_of_nonpos hn]

end ProgramArt.Binary64
