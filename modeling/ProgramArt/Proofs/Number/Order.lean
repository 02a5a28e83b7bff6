import ProgramArt.Proofs.Datum.Magnitude
import ProgramArt.Proofs.Number.Nearest

/-!
# Doubles in the order of numbers

Every double but NaN stands for a number or for an infinity, its `Binary64.value`, and doubles are compared as what
they stand for (`lt_iff_value`): two zeros are equal, and of two finite doubles of one sign the exponents are compared
before the mantissas, which is right because only the least exponent has mantissas without a leading bit. NaN is
compared with nothing (`compare_of_isNaN`).
-/

namespace ProgramArt

namespace Binary64

open Float.Model.UnpackedFloat

/-! ## Doubles as numbers -/

/-- The number `± mantissa · 2 ^ exponent`. -/
def scaled (negative : Bool) (mantissa : Nat) (exponent : Int) : ℚ :=
  ((if negative then -(mantissa : Int) else mantissa : Int) : ℚ) * 2 ^ exponent

/-- The number of a double, between two infinities. NaN has none and is put at the lower end. -/
def value (x : Float) : WithBot (WithTop ℚ) :=
  ((Magnitude.ofFloat? x).map Magnitude.value).getD ⊥

/-- The `value` of a finite double is its mantissa, scaled by its exponent. -/
theorem value_of_finite {x : Float} {negative : Bool} {mantissa : Nat} {exponent : Int}
    (h : parts x = .finite negative mantissa exponent) :
    value x = ((scaled negative mantissa exponent : ℚ) : WithTop ℚ) := by
  rw [value, Magnitude.ofFloat?, h]
  rfl

theorem value_of_infinite {x : Float} {negative : Bool} (h : parts x = .infinite negative) :
    value x = if negative then ⊥ else ((⊤ : WithTop ℚ) : WithBot (WithTop ℚ)) := by
  rw [value, Magnitude.ofFloat?, h]
  cases negative <;> rfl

/-- Of two finite doubles the one with the greater exponent is greater. -/
theorem lt_of_exponent_lt {m n : Nat} {e f : Int} (hm : Canonical m e) (hn : Canonical n f)
    (h : e < f) : (m : ℚ) * 2 ^ e < n * 2 ^ f := by
  have hfull : 2 ^ 52 ≤ n := by
    by_contra hsmall
    have := hn.normal (by omega)
    have := hm.least
    omega
  calc (m : ℚ) * 2 ^ e < 2 ^ 53 * 2 ^ e := by
        apply mul_lt_mul_of_pos_right _ (by positivity)
        exact_mod_cast hm.lt
    _ = 2 ^ 52 * 2 ^ (e + 1) := by
        rw [zpow_add_one₀ two_ne_zero]
        ring
    _ ≤ 2 ^ 52 * 2 ^ f := by
        gcongr
        · norm_num
        · omega
    _ ≤ n * 2 ^ f := by
        gcongr
        exact_mod_cast hfull

/-- Exponents are compared first and mantissas second, which is the order of the numbers. -/
theorem compare_canonical {m n : Nat} {e f : Int} (hm : Canonical m e) (hn : Canonical n f) :
    (compare e f).then (compare m n) = cmp ((m : ℚ) * 2 ^ e) (n * 2 ^ f) := by
  rcases lt_trichotomy e f with hlt | rfl | hgt
  · rw [Int.compare_eq_lt.mpr hlt, (cmp_eq_lt_iff _ _).mpr (lt_of_exponent_lt hm hn hlt)]
    rfl
  · rw [cmp_mul_pos_right (by positivity)]
    have heq : compare e e = .eq := by simp
    rw [heq]
    show compare m n = _
    rw [show cmp (m : ℚ) n = cmp m n from Nat.strictMono_cast.cmp_map_eq m n]
    exact (cmp_eq_compare m n).symm
  · rw [Int.compare_eq_gt.mpr hgt, (cmp_eq_gt_iff _ _).mpr (lt_of_exponent_lt hn hm hgt)]
    rfl

/-! ## What is unpacked -/

/-- An unpacked double and its number. NaN has none. -/
inductive Shows : Float.Model.UnpackedFloat → WithBot (WithTop ℚ) → Prop
  | low : Shows (.infinity .negative) ⊥
  | high : Shows (.infinity .positive) (⊤ : WithTop ℚ)
  | zero (sign : Sign) : Shows (.zero sign) ((0 : ℚ) : WithTop ℚ)
  | positive {m : Nat} {e : Int} (hpos : 0 < m) (h : Canonical m e) :
      Shows (.finite .positive m e hpos) ((m * 2 ^ e : ℚ) : WithTop ℚ)
  | negative {m : Nat} {e : Int} (hpos : 0 < m) (h : Canonical m e) :
      Shows (.finite .negative m e hpos) ((-(m * 2 ^ e) : ℚ) : WithTop ℚ)

section

variable {p q : ℚ}

theorem cmp_coe :
    cmp ((p : WithTop ℚ) : WithBot (WithTop ℚ)) ((q : WithTop ℚ) : WithBot (WithTop ℚ)) = cmp p q := by
  rw [WithBot.coe_strictMono.cmp_map_eq, WithTop.coe_strictMono.cmp_map_eq]

theorem cmp_coe_of_lt (h : p < q) :
    cmp ((p : WithTop ℚ) : WithBot (WithTop ℚ)) ((q : WithTop ℚ) : WithBot (WithTop ℚ)) = .lt := by
  rw [cmp_coe]
  exact (cmp_eq_lt_iff p q).mpr h

theorem cmp_coe_of_gt (h : q < p) :
    cmp ((p : WithTop ℚ) : WithBot (WithTop ℚ)) ((q : WithTop ℚ) : WithBot (WithTop ℚ)) = .gt := by
  rw [cmp_coe]
  exact (cmp_eq_gt_iff p q).mpr h

theorem cmp_bot_coe (a : WithTop ℚ) : cmp ⊥ (a : WithBot (WithTop ℚ)) = .lt :=
  (cmp_eq_lt_iff _ _).mpr (WithBot.bot_lt_coe a)

theorem cmp_coe_bot (a : WithTop ℚ) : cmp (a : WithBot (WithTop ℚ)) ⊥ = .gt :=
  (cmp_eq_gt_iff _ _).mpr (WithBot.bot_lt_coe a)

theorem cmp_coe_top :
    cmp ((p : WithTop ℚ) : WithBot (WithTop ℚ)) ((⊤ : WithTop ℚ) : WithBot (WithTop ℚ)) = .lt :=
  (cmp_eq_lt_iff _ _).mpr (WithBot.coe_lt_coe.mpr (WithTop.coe_lt_top p))

theorem cmp_top_coe :
    cmp ((⊤ : WithTop ℚ) : WithBot (WithTop ℚ)) ((p : WithTop ℚ) : WithBot (WithTop ℚ)) = .gt :=
  (cmp_eq_gt_iff _ _).mpr (WithBot.coe_lt_coe.mpr (WithTop.coe_lt_top p))

end

theorem mul_two_zpow_pos {m : Nat} (hpos : 0 < m) (e : Int) : (0 : ℚ) < m * 2 ^ e :=
  mul_pos (Nat.cast_pos.mpr hpos) (zpow_pos two_pos e)

theorem neg_mul_two_zpow_neg {m : Nat} (hpos : 0 < m) (e : Int) : -(m * 2 ^ e : ℚ) < 0 :=
  neg_neg_of_pos (mul_two_zpow_pos hpos e)

/-- **Unpacked doubles are compared as their numbers.** -/
theorem Shows.compare_eq {f g : Float.Model.UnpackedFloat} {p q : WithBot (WithTop ℚ)} (hf : Shows f p)
    (hg : Shows g q) : f.compare g = some (cmp p q) := by
  cases hf with
  | low =>
    cases hg with
    | low => rw [cmp_self_eq_eq]; rfl
    | high | zero | positive | negative => rw [cmp_bot_coe]; rfl
  | high =>
    cases hg with
    | low => rw [cmp_coe_bot]; rfl
    | high => rw [cmp_self_eq_eq]; rfl
    | zero | positive | negative => rw [cmp_top_coe]; rfl
  | zero sign =>
    cases hg with
    | low => rw [cmp_coe_bot]; rfl
    | high => rw [cmp_coe_top]; rfl
    | zero other => rw [cmp_self_eq_eq]; rfl
    | positive hpos _ => rw [cmp_coe_of_lt (mul_two_zpow_pos hpos _)]; rfl
    | negative hpos _ => rw [cmp_coe_of_gt (neg_mul_two_zpow_neg hpos _)]; rfl
  | positive hpos h =>
    cases hg with
    | low => rw [cmp_coe_bot]; rfl
    | high => rw [cmp_coe_top]; rfl
    | zero other => rw [cmp_coe_of_gt (mul_two_zpow_pos hpos _)]; rfl
    | positive hpos' h' => rw [cmp_coe, ← compare_canonical h h']; rfl
    | negative hpos' _ =>
      rw [cmp_coe_of_gt ((neg_mul_two_zpow_neg hpos' _).trans (mul_two_zpow_pos hpos _))]; rfl
  | negative hpos h =>
    cases hg with
    | low => rw [cmp_coe_bot]; rfl
    | high => rw [cmp_coe_top]; rfl
    | zero other => rw [cmp_coe_of_lt (neg_mul_two_zpow_neg hpos _)]; rfl
    | positive hpos' _ =>
      rw [cmp_coe_of_lt ((neg_mul_two_zpow_neg hpos _).trans (mul_two_zpow_pos hpos' _))]; rfl
    | negative hpos' h' =>
      -- a minus sign turns the order around
      have hanti : StrictAnti fun p : ℚ => -p := fun _ _ => neg_lt_neg
      rw [cmp_coe, hanti.cmp_map_eq, ← cmp_swap, ← compare_canonical h h']; rfl

theorem ofBitVec_unpackSign (bits : UInt64) :
    Sign.ofBitVec (@unpackSign .binary64 bits.toBitVec)
      = if 2 ^ 63 ≤ bits.toNat then .negative else .positive := by
  have hword : bits.toNat < 2 ^ 64 := bits.toNat_lt
  have hsign : (@unpackSign .binary64 bits.toBitVec).toNat = bits.toNat / 2 ^ 63 := by
    simp [unpackSign, Nat.shiftRight_eq_div_pow]
    omega
  have hzero : @unpackSign .binary64 bits.toBitVec = 0#1 ↔ ¬ 2 ^ 63 ≤ bits.toNat := by
    rw [← BitVec.toNat_inj, hsign]
    show bits.toNat / 2 ^ 63 = 0 ↔ _
    omega
  by_cases hbig : 2 ^ 63 ≤ bits.toNat
  · rw [if_pos hbig]
    exact if_neg (fun h => hzero.mp h hbig)
  · rw [if_neg hbig]
    exact if_pos (hzero.mpr hbig)

theorem toNat_unpackMantissa (bits : UInt64) :
    (@unpackMantissa .binary64 bits.toBitVec).toNat = bits.toNat % 2 ^ fractionBits := by
  simp [unpackMantissa, fractionBits]

theorem toNat_lead_append (mantissa : BitVec 52) : (1#1 ++ mantissa).toNat = mantissa.toNat + 2 ^ 52 := by
  rw [BitVec.toNat_append, ← Nat.shiftLeft_add_eq_or_of_lt mantissa.isLt, Nat.shiftLeft_eq]
  simp [Nat.add_comm]

/-- What is unpacked from a finite double. -/
theorem unpack_of_finite {x : Float} {negative : Bool} {mantissa : Nat} {exponent : Int}
    (h : parts x = .finite negative mantissa exponent) :
    x.toModel.unpack = if hpos : 0 < mantissa then
        .finite (if negative then .negative else .positive) mantissa exponent hpos
      else .zero (if negative then .negative else .positive) := by
  obtain ⟨field, fraction, hfield, hfraction, hbits, hcases⟩ := fields_of_parts h
  have hsign : Sign.ofBitVec (@unpackSign .binary64 x.toBits.toBitVec)
      = if negative then .negative else .positive := by
    rw [ofBitVec_unpackSign]
    cases negative
    · exact if_neg (by simp at hbits; omega)
    · exact if_pos (by simp at hbits; omega)
  have hexponent : (@unpackExponent .binary64 x.toBits.toBitVec).toNat = field := by
    rw [toNat_unpackExponent, fractionBits]
    cases negative <;> simp at hbits <;> omega
  have hmantissa : (@unpackMantissa .binary64 x.toBits.toBitVec).toNat = fraction := by
    rw [toNat_unpackMantissa, fractionBits]
    cases negative <;> simp at hbits <;> omega
  rw [show x.toModel.unpack = unpack .binary64 x.toBits.toBitVec from rfl, unpack]
  dsimp only
  rw [hsign, if_neg (by rw [← BitVec.toNat_inj, hexponent]; show field ≠ 2047; omega)]
  obtain ⟨rfl, rfl, rfl⟩ | ⟨hnormal, rfl, rfl⟩ := hcases
  · -- the least exponent, at which a mantissa may be zero
    rw [if_pos (by rw [← BitVec.toNat_inj, hexponent]; rfl)]
    have hzero : @unpackMantissa .binary64 x.toBits.toBitVec = 0#_ ↔ ¬ 0 < mantissa := by
      rw [← BitVec.toNat_inj, hmantissa]
      show mantissa = 0 ↔ _
      omega
    by_cases hpos : 0 < mantissa
    · rw [dif_pos hpos, dif_neg fun h => hzero.mp h hpos]
      congr 1
      rw [hexponent]
      rfl
    · rw [dif_neg hpos, dif_pos (hzero.mpr hpos)]
  · -- every other exponent adds a leading bit
    rw [if_neg (by rw [← BitVec.toNat_inj, hexponent]; show field ≠ 0; omega),
      dif_pos (Nat.add_pos_right _ (by norm_num))]
    congr 1
    · exact (toNat_lead_append _).trans (by rw [hmantissa])
    · rw [hexponent]
      show (field : Int) - ((1023 : Nat) + (52 : Nat)) = _
      omega

/-- What is unpacked from a double that is a number is this number. -/
theorem shows_value {x : Float} (h : x.isNaN = false) : Shows x.toModel.unpack (value x) := by
  cases hparts : parts x with
  | nan =>
    rw [isNaN_iff.mpr hparts] at h
    cases h
  | infinite negative =>
    rw [eq_infinity_of_parts hparts]
    cases negative
    · exact .high
    · exact .low
  | finite negative mantissa exponent =>
    rw [unpack_of_finite hparts, value_of_finite hparts]
    have hcanonical := canonical_of_parts hparts
    by_cases hpos : 0 < mantissa
    · rw [dif_pos hpos]
      cases negative
      · have hvalue : scaled false mantissa exponent = mantissa * 2 ^ exponent := by simp [scaled]
        rw [hvalue]
        exact .positive hpos hcanonical
      · have hvalue : scaled true mantissa exponent = -(mantissa * 2 ^ exponent) := by simp [scaled]
        rw [hvalue]
        exact .negative hpos hcanonical
    · rw [dif_neg hpos]
      have hvalue : scaled negative mantissa exponent = 0 := by
        rw [Nat.eq_zero_of_not_pos hpos]
        simp [scaled]
      rw [hvalue]
      exact .zero _

/-! ## Comparisons -/

/-- Unpacked doubles are compared as their `value`s. -/
theorem compare_eq {x y : Float} (hx : x.isNaN = false) (hy : y.isNaN = false) :
    x.toModel.unpack.compare y.toModel.unpack = some (cmp (value x) (value y)) :=
  (shows_value hx).compare_eq (shows_value hy)

/-- **Doubles are compared as numbers.** -/
theorem lt_iff_value {x y : Float} (hx : x.isNaN = false) (hy : y.isNaN = false) :
    x < y ↔ value x < value y := by
  have hlt : x < y ↔ (x.toModel.unpack.compare y.toModel.unpack == some .lt) = true := decide_eq_true_iff
  rw [hlt, compare_eq hx hy, beq_iff_eq, Option.some.injEq, cmp_eq_lt_iff]

/-- **Doubles are compared as numbers**, by `≤` as by `<`. -/
theorem le_iff_value {x y : Float} (hx : x.isNaN = false) (hy : y.isNaN = false) :
    x ≤ y ↔ value x ≤ value y := by
  have hle : x ≤ y ↔ (x.toModel.unpack.compare y.toModel.unpack).any (·.isLE) = true :=
    decide_eq_true_iff
  rw [hle, compare_eq hx hy, Option.any_some, Ordering.isLE_iff_ne_gt, cmp_eq_gt_iff, not_lt]

/-- Two doubles are equal if their `value`s are, so that both zeros are equal. -/
theorem beq_iff_value {x y : Float} (hx : x.isNaN = false) (hy : y.isNaN = false) :
    (x == y) = true ↔ value x = value y := by
  change (x.toModel.unpack.compare y.toModel.unpack == some .eq) = true ↔ _
  rw [compare_eq hx hy, beq_iff_eq, Option.some.injEq, cmp_eq_eq_iff]

/-- **NaN is compared with nothing.** -/
theorem compare_of_isNaN {x y : Float} (h : x.isNaN = true ∨ y.isNaN = true) :
    x.toModel.unpack.compare y.toModel.unpack = none := by
  have hnan : ∀ z : Float, z.isNaN = true → z.toModel.unpack = .notANumber := by
    intro z hz
    change z.toModel.unpack.isNaN = true at hz
    cases hunpack : z.toModel.unpack <;> simp_all [isNaN]
  rcases h with h | h
  · rw [hnan x h]
    rfl
  · rw [hnan y h]
    cases x.toModel.unpack <;> rfl

/-- **NaN is compared with nothing.** -/
theorem not_lt_of_isNaN {x y : Float} (h : x.isNaN = true ∨ y.isNaN = true) : ¬ x < y := by
  have hlt : x < y ↔ (x.toModel.unpack.compare y.toModel.unpack == some .lt) = true := decide_eq_true_iff
  rw [hlt, compare_of_isNaN h]
  exact Bool.false_ne_true

theorem not_le_of_isNaN {x y : Float} (h : x.isNaN = true ∨ y.isNaN = true) : ¬ x ≤ y := by
  have hle : x ≤ y ↔ (x.toModel.unpack.compare y.toModel.unpack).any (·.isLE) = true :=
    decide_eq_true_iff
  rw [hle, compare_of_isNaN h]
  exact Bool.false_ne_true

theorem beq_of_isNaN {x y : Float} (h : x.isNaN = true ∨ y.isNaN = true) : (x == y) = false := by
  change (x.toModel.unpack.compare y.toModel.unpack == some .eq) = false
  rw [compare_of_isNaN h]
  rfl

theorem coe_coe_le {p q : ℚ} : ((p : WithTop ℚ) : WithBot (WithTop ℚ)) ≤ (q : WithTop ℚ) ↔ p ≤ q := by
  rw [WithBot.coe_le_coe, WithTop.coe_le_coe]

theorem coe_coe_inj {p q : ℚ} :
    ((p : WithTop ℚ) : WithBot (WithTop ℚ)) = ((q : WithTop ℚ) : WithBot (WithTop ℚ)) ↔ p = q := by
  rw [WithBot.coe_inj, WithTop.coe_inj]

/-! ## Magnitudes -/

/-- The `Magnitude` of a double has the `value` of the double. -/
theorem value_of_magnitude {x : Float} {a : Magnitude} (h : Magnitude.ofFloat? x = some a) :
    x.isNaN = false ∧ value x = a.value := by
  refine ⟨Bool.eq_false_iff.mpr fun hnan => ?_, by rw [value, h]; rfl⟩
  rw [Magnitude.ofFloat?, isNaN_iff.mp hnan] at h
  cases h

/-- Only NaN has no `Magnitude`. -/
theorem isNaN_of_magnitude {x : Float} (h : Magnitude.ofFloat? x = none) : x.isNaN = true := by
  rw [isNaN_iff]
  cases hparts : parts x with
  | nan => rfl
  | infinite _ | finite _ _ _ =>
    rw [Magnitude.ofFloat?, hparts] at h
    cases h

end Binary64

namespace Magnitude

/-- What is asked of two doubles is `asked` of their magnitudes, if it is denied of NaN. -/
theorem asked_eq {holds : Magnitude → Magnitude → Bool} {x y : Float} {answer : Bool}
    (hnan : x.isNaN = true ∨ y.isNaN = true → answer = false)
    (hvalues : ∀ a b, x.isNaN = false → y.isNaN = false → Binary64.value x = a.value →
      Binary64.value y = b.value → answer = holds a b) :
    answer = asked holds (ofFloat? x) (ofFloat? y) := by
  cases hx : ofFloat? x with
  | none => exact hnan (.inl (Binary64.isNaN_of_magnitude hx))
  | some a =>
    cases hy : ofFloat? y with
    | none => exact hnan (.inr (Binary64.isNaN_of_magnitude hy))
    | some b =>
      obtain ⟨hxnan, hxvalue⟩ := Binary64.value_of_magnitude hx
      obtain ⟨hynan, hyvalue⟩ := Binary64.value_of_magnitude hy
      exact hvalues a b hxnan hynan hxvalue hyvalue

theorem asked_same (x y : Float) : (x == y) = asked same (ofFloat? x) (ofFloat? y) := by
  refine asked_eq Binary64.beq_of_isNaN fun a b hxnan hynan hx hy => ?_
  rw [Bool.eq_iff_iff, Binary64.beq_iff_value hxnan hynan, hx, hy, same, Bool.and_eq_true,
    Bool.not_eq_true', Bool.not_eq_true', ← Bool.not_eq_true, ← Bool.not_eq_true, less_iff, less_iff, not_lt,
    not_lt, and_comm, le_antisymm_iff]

theorem asked_less (x y : Float) : decide (x < y) = asked less (ofFloat? x) (ofFloat? y) := by
  refine asked_eq (fun h => decide_eq_false (Binary64.not_lt_of_isNaN h)) fun a b hxnan hynan hx hy => ?_
  rw [Bool.eq_iff_iff, decide_eq_true_iff, Binary64.lt_iff_value hxnan hynan, hx, hy, less_iff]

theorem asked_atMost (x y : Float) :
    decide (x ≤ y) = asked (fun a b => !b.less a) (ofFloat? x) (ofFloat? y) := by
  refine asked_eq (fun h => decide_eq_false (Binary64.not_le_of_isNaN h)) fun a b hxnan hynan hx hy => ?_
  rw [Bool.eq_iff_iff, decide_eq_true_iff, Binary64.le_iff_value hxnan hynan, hx, hy, Bool.not_eq_true',
    ← Bool.not_eq_true, less_iff, not_lt]

end Magnitude

theorem Binary64.beq_comm (x y : Float) : (x == y) = (y == x) := by
  rw [Magnitude.asked_same, Magnitude.asked_same]
  cases Magnitude.ofFloat? x <;> cases Magnitude.ofFloat? y
  · rfl
  · rfl
  · rfl
  · exact Magnitude.same_comm _ _

end ProgramArt
