import Mathlib.Algebra.Group.Nat.Defs
import ProgramArt.Number.Word64

/-!
# The range of words

Sums, differences, products, quotients, remainders and left shifts are wrapped into the range of words, `IsWord`.
Right shifts and the bitwise operations are not: on words they give words.

Masking is the remainder by a power of two (`and_mask`), and so `wrap` gives the balanced remainder (`wrap_eq_bmod`).
Dividing magnitudes and putting the sign back is division toward zero (`signedQuotient_eq_tdiv`).
-/

namespace ProgramArt.Word64

/-- An integer that a word stands for. -/
def IsWord (n : Int) : Prop :=
  minValue ≤ n ∧ n ≤ maxValue

instance (n : Int) : Decidable (IsWord n) :=
  inferInstanceAs (Decidable (minValue ≤ n ∧ n ≤ maxValue))

theorem minValue_eq : minValue = -9223372036854775808 := rfl

theorem maxValue_eq : maxValue = 9223372036854775807 := rfl

/-- The range of words in figures. -/
theorem isWord_iff {n : Int} : IsWord n ↔ -9223372036854775808 ≤ n ∧ n ≤ 9223372036854775807 := by
  simp [IsWord, minValue, maxValue]

theorem isWord_ofNat {m : Nat} : IsWord (Int.ofNat m) ↔ m < 2 ^ 63 := by
  rw [isWord_iff, Int.ofNat_eq_natCast]
  omega

theorem isWord_negSucc {m : Nat} : IsWord (Int.negSucc m) ↔ m < 2 ^ 63 := by
  rw [isWord_iff, Int.negSucc_eq]
  omega

theorem isWord_zero : IsWord 0 := by decide

/-! ## Wrapping -/

/-- The low 64 bits that `n` does not have are counted down from `2 ^ 64 - 1`. -/
theorem without_two_pow_sub_one (n : Nat) : without (2 ^ 64 - 1) n = 2 ^ 64 - (n % 2 ^ 64 + 1) := by
  have hlt : n % 2 ^ 64 < 2 ^ 64 := Nat.mod_lt _ (Nat.two_pow_pos 64)
  rw [without, Nat.and_comm, Nat.and_two_pow_sub_one_eq_mod]
  apply Nat.eq_of_testBit_eq
  intro i
  rw [Nat.testBit_two_pow_sub_succ hlt, Nat.testBit_xor, Nat.testBit_two_pow_sub_one, Nat.testBit_mod_two_pow]
  cases decide (i < 64) <;> cases n.testBit i <;> rfl

/-- Masking an integer of either sign gives its remainder by `2 ^ 64`. -/
theorem and_mask (n : Int) : and n mask = n % (2 ^ 64 : Nat) := by
  cases n with
  | ofNat m =>
      show Int.ofNat (m &&& (2 ^ 64 - 1)) = _
      rw [Nat.and_two_pow_sub_one_eq_mod]
      rfl
  | negSucc m =>
      show Int.ofNat (without (2 ^ 64 - 1) m) = _
      rw [without_two_pow_sub_one, Int.negSucc_eq, Int.ofNat_eq_natCast]
      omega

/-- **Wrapping gives the balanced remainder.** -/
theorem wrap_eq_bmod (n : Int) : wrap n = n.bmod (2 ^ 64) := by
  rw [wrap, and_mask, minValue_eq, Int.bmod_def]
  split <;> omega

/-- **Wrapping gives words.** -/
theorem isWord_wrap (n : Int) : IsWord (wrap n) := by
  rw [isWord_iff, wrap, and_mask, minValue_eq]
  omega

/-! ## Division -/

/-- **Dividing magnitudes and putting the sign back is division toward zero.** -/
theorem signedQuotient_eq_tdiv (a b : Int) : signedQuotient a b = Int.tdiv a b := by
  have hofNat : ∀ m : Nat, decide (Int.ofNat m < 0) = false := fun m => by simp
  have hnegSucc : ∀ m : Nat, decide (Int.negSucc m < 0) = true := fun m => by simp
  unfold signedQuotient
  cases a with
  | ofNat m =>
      cases b with
      | ofNat n => rw [hofNat, hofNat, if_neg (by simp)]; rfl
      | negSucc n => rw [hofNat, hnegSucc, if_pos (by simp)]; rfl
  | negSucc m =>
      cases b with
      | ofNat n => rw [hnegSucc, hofNat, if_pos (by simp)]; rfl
      | negSucc n => rw [hnegSucc, hnegSucc, if_neg (by simp)]; rfl

/-- What is left of the dividend is the remainder of division toward zero. -/
theorem sub_mul_signedQuotient (a b : Int) : a - b * signedQuotient a b = Int.tmod a b := by
  rw [signedQuotient_eq_tdiv, Int.tmod_def]

/-- `quotient` is the wrapped division toward zero, which gives zero for a divisor of zero. -/
theorem quotient_eq_wrap_tdiv (a b : Int) : quotient a b = wrap (Int.tdiv a b) := by
  rw [quotient, signedQuotient_eq_tdiv]
  split
  · rename_i hzero
    rw [hzero, Int.tdiv_zero]
    rfl
  · rfl

/-- `remainder` is what division toward zero leaves, wrapped. -/
theorem remainder_of_ne_zero (a : Int) {b : Int} (h : b ≠ 0) : remainder a b = wrap (Int.tmod a b) := by
  rw [remainder, if_neg h, sub_mul_signedQuotient]

/-! ## What gives words -/

/-- Clamping gives a word. -/
theorem isWord_clamp (n : Int) : IsWord (max minValue (min maxValue n)) := by
  have hrange : minValue ≤ maxValue := by decide
  unfold IsWord
  omega

theorem clamp_of_isWord {n : Int} (h : IsWord n) : max minValue (min maxValue n) = n := by
  rw [Int.min_eq_right h.2, Int.max_eq_right h.1]

theorem isWord_quotient (a b : Int) : IsWord (quotient a b) := by
  rw [quotient_eq_wrap_tdiv]
  exact isWord_wrap _

/-- Remainders are words, whatever is divided by what. -/
theorem isWord_remainder (a b : Int) : IsWord (remainder a b) := by
  rw [remainder]
  split
  · exact isWord_zero
  · exact isWord_wrap _

theorem isWord_shiftLeft (a amount : Int) : IsWord (shiftLeft a amount) := isWord_wrap _

/-- A right shift moves a word toward zero, or toward minus one. -/
theorem isWord_shiftRight {a : Int} (h : IsWord a) (amount : Int) : IsWord (shiftRight a amount) := by
  rw [shiftRight, Int.shiftRight_eq_div_pow]
  have hpow : (0 : Int) < ((2 ^ places amount : Nat) : Int) := by
    exact Int.ofNat_lt.mpr (Nat.two_pow_pos _)
  generalize ((2 ^ places amount : Nat) : Int) = d at hpow
  obtain ⟨hlow, hhigh⟩ := h
  refine ⟨?_, ?_⟩
  · rw [Int.le_ediv_iff_mul_le hpow]
    have hmul : minValue * d ≤ minValue * 1 := Int.mul_le_mul_of_nonpos_left (by decide) hpow
    omega
  · rw [← Int.lt_add_one_iff, Int.ediv_lt_iff_lt_mul hpow]
    have hmul : (maxValue + 1) * 1 ≤ (maxValue + 1) * d := Int.mul_le_mul_of_nonneg_left hpow (by decide)
    omega

/-! ## Bitwise operations

A word and a negative word `-(m + 1)` both have `m < 2 ^ 63`, and the operations on such `m` stay below. -/

/-- Taking bits away never makes a number greater. -/
theorem without_lt {m : Nat} (n : Nat) (h : m < 2 ^ 63) : without m n < 2 ^ 63 :=
  Nat.xor_lt_two_pow h (Nat.lt_of_le_of_lt Nat.and_le_left h)

/-- Words are closed under `and`, by cases on the two signs. -/
theorem isWord_and {a b : Int} (ha : IsWord a) (hb : IsWord b) : IsWord (and a b) := by
  cases a with
  | ofNat m =>
      have hm := isWord_ofNat.mp ha
      cases b with
      | ofNat n => exact isWord_ofNat.mpr (Nat.and_lt_two_pow m (isWord_ofNat.mp hb))
      | negSucc n => exact isWord_ofNat.mpr (without_lt n hm)
  | negSucc m =>
      have hm := isWord_negSucc.mp ha
      cases b with
      | ofNat n => exact isWord_ofNat.mpr (without_lt m (isWord_ofNat.mp hb))
      | negSucc n => exact isWord_negSucc.mpr (Nat.or_lt_two_pow hm (isWord_negSucc.mp hb))

theorem isWord_or {a b : Int} (ha : IsWord a) (hb : IsWord b) : IsWord (or a b) := by
  cases a with
  | ofNat m =>
      have hm := isWord_ofNat.mp ha
      cases b with
      | ofNat n => exact isWord_ofNat.mpr (Nat.or_lt_two_pow hm (isWord_ofNat.mp hb))
      | negSucc n => exact isWord_negSucc.mpr (without_lt m (isWord_negSucc.mp hb))
  | negSucc m =>
      have hm := isWord_negSucc.mp ha
      cases b with
      | ofNat n => exact isWord_negSucc.mpr (without_lt n hm)
      | negSucc n => exact isWord_negSucc.mpr (Nat.and_lt_two_pow m (isWord_negSucc.mp hb))

theorem isWord_xor {a b : Int} (ha : IsWord a) (hb : IsWord b) : IsWord (xor a b) := by
  cases a with
  | ofNat m =>
      have hm := isWord_ofNat.mp ha
      cases b with
      | ofNat n => exact isWord_ofNat.mpr (Nat.xor_lt_two_pow hm (isWord_ofNat.mp hb))
      | negSucc n => exact isWord_negSucc.mpr (Nat.xor_lt_two_pow hm (isWord_negSucc.mp hb))
  | negSucc m =>
      have hm := isWord_negSucc.mp ha
      cases b with
      | ofNat n => exact isWord_negSucc.mpr (Nat.xor_lt_two_pow hm (isWord_ofNat.mp hb))
      | negSucc n => exact isWord_ofNat.mpr (Nat.xor_lt_two_pow hm (isWord_negSucc.mp hb))

end ProgramArt.Word64
