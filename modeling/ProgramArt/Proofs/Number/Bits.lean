import Mathlib.Data.BitVec
import Mathlib.Data.Int.ModEq
import ProgramArt.Proofs.Number.Word64

/-!
# The bits of words

Integers stand for words, and their low bits are those of the words. Reading the low bits of an integer goes along
with all operations that never look at higher bits than they write: sums, differences, products, left shifts and the
bitwise operations. Wrapping an integer leaves its low 64 bits as they are (`ofInt_wrap`), and a shift looks at the
low six bits of its amount (`places_eq`).
-/

namespace ProgramArt.Word64

/-! ## Low bits -/

/-- **Wrapping an integer reads its low 64 bits with their sign.** -/
theorem toInt_ofInt (n : Int) : (BitVec.ofInt 64 n).toInt = wrap n := by
  rw [BitVec.toInt_ofInt, wrap_eq_bmod]

/-- A word is its own wrapping. -/
theorem wrap_of_isWord {n : Int} (h : IsWord n) : wrap n = n := by
  rw [isWord_iff] at h
  rw [wrap, and_mask, minValue_eq]
  omega

/-- Two integers have the same low bits if they are congruent. -/
theorem ofInt_eq_iff {width : Nat} {m n : Int} :
    BitVec.ofInt width m = BitVec.ofInt width n ↔ m ≡ n [ZMOD (2 ^ width : Nat)] := by
  have hpos : ((2 ^ width : Nat) : Int) ≠ 0 := by
    have := Nat.two_pow_pos width
    omega
  rw [← BitVec.toNat_inj, BitVec.toNat_ofInt, BitVec.toNat_ofInt, Int.ModEq]
  have hm := Int.emod_nonneg m hpos
  have hn := Int.emod_nonneg n hpos
  constructor
  · intro h
    omega
  · intro h
    rw [h]

/-- Wrapping leaves the low 64 bits as they are, and so any fewer of them. -/
theorem ofInt_wrap {width : Nat} (hwidth : width ≤ 64) (n : Int) :
    BitVec.ofInt width (wrap n) = BitVec.ofInt width n := by
  rw [ofInt_eq_iff]
  have hwrap : wrap n ≡ n [ZMOD (2 ^ 64 : Nat)] := by
    rw [wrap_eq_bmod]
    exact Int.bmod_emod
  refine hwrap.of_dvd ?_
  exact Int.natCast_dvd_natCast.mpr (Nat.pow_dvd_pow 2 hwidth)

variable {width : Nat}

theorem ofInt_sub (m n : Int) : BitVec.ofInt width (m - n) = BitVec.ofInt width m - BitVec.ofInt width n := by
  rw [Int.sub_eq_add_neg, BitVec.ofInt_add, BitVec.ofInt_neg, BitVec.sub_eq_add_neg]

theorem ofInt_shl (n : Int) (places : Nat) :
    BitVec.ofInt width (n <<< places) = BitVec.ofInt width n <<< places := by
  rw [Int.shiftLeft_eq, BitVec.ofInt_mul, BitVec.shiftLeft_eq_mul_twoPow]
  congr 1
  apply BitVec.eq_of_toNat_eq
  rw [BitVec.toNat_ofInt, BitVec.toNat_twoPow]
  norm_cast

/-- **A shift goes by the low six bits of its amount**, whatever the sign. -/
theorem places_eq (amount : Int) : places amount = ((BitVec.ofInt 64 amount).setWidth 6).toNat := by
  rw [BitVec.toNat_setWidth, BitVec.toNat_ofInt]
  show (amount % 64).toNat = (amount % 18446744073709551616).toNat % 64
  omega

/-! ## Bitwise operations

A negative integer `-(n + 1)` has the bits that `n` does not have, so each operation on integers of either sign is one
on natural numbers up to complements. -/

theorem ofNat_without (m n : Nat) :
    BitVec.ofNat width (without m n) = BitVec.ofNat width m &&& ~~~BitVec.ofNat width n := by
  rw [without, BitVec.ofNat_xor, BitVec.ofNat_and]
  ext i hi
  simp only [BitVec.getElem_xor, BitVec.getElem_and, BitVec.getElem_not]
  cases (BitVec.ofNat width m)[i] <;> cases (BitVec.ofNat width n)[i] <;> rfl

theorem ofInt_and (a b : Int) :
    BitVec.ofInt width (and a b) = BitVec.ofInt width a &&& BitVec.ofInt width b := by
  cases a with
  | ofNat m =>
    cases b with
    | ofNat n => exact BitVec.ofNat_and
    | negSucc n =>
      rw [BitVec.ofInt_negSucc_eq_not_ofNat]
      exact ofNat_without m n
  | negSucc m =>
    rw [BitVec.ofInt_negSucc_eq_not_ofNat, BitVec.and_comm]
    cases b with
    | ofNat n => exact ofNat_without n m
    | negSucc n =>
      rw [and, BitVec.ofInt_negSucc_eq_not_ofNat, BitVec.ofInt_negSucc_eq_not_ofNat, BitVec.ofNat_or, BitVec.not_or,
        BitVec.and_comm]

theorem ofInt_or (a b : Int) :
    BitVec.ofInt width (or a b) = BitVec.ofInt width a ||| BitVec.ofInt width b := by
  cases a with
  | ofNat m =>
    cases b with
    | ofNat n => exact BitVec.ofNat_or
    | negSucc n =>
      rw [or, BitVec.ofInt_negSucc_eq_not_ofNat, BitVec.ofInt_negSucc_eq_not_ofNat, ofNat_without, BitVec.not_and,
        BitVec.not_not, BitVec.or_comm]
      rfl
  | negSucc m =>
    rw [BitVec.ofInt_negSucc_eq_not_ofNat]
    cases b with
    | ofNat n =>
      rw [or, BitVec.ofInt_negSucc_eq_not_ofNat, ofNat_without, BitVec.not_and, BitVec.not_not]
      rfl
    | negSucc n =>
      rw [or, BitVec.ofInt_negSucc_eq_not_ofNat, BitVec.ofInt_negSucc_eq_not_ofNat, BitVec.ofNat_and, BitVec.not_and]

theorem ofInt_xor (a b : Int) :
    BitVec.ofInt width (xor a b) = BitVec.ofInt width a ^^^ BitVec.ofInt width b := by
  cases a with
  | ofNat m =>
    cases b with
    | ofNat n => exact BitVec.ofNat_xor
    | negSucc n =>
      rw [xor, BitVec.ofInt_negSucc_eq_not_ofNat, BitVec.ofInt_negSucc_eq_not_ofNat, BitVec.ofNat_xor,
        BitVec.not_xor_right]
      rfl
  | negSucc m =>
    rw [BitVec.ofInt_negSucc_eq_not_ofNat]
    cases b with
    | ofNat n =>
      rw [xor, BitVec.ofInt_negSucc_eq_not_ofNat, BitVec.ofNat_xor, BitVec.not_xor_left]
      rfl
    | negSucc n =>
      rw [xor, BitVec.ofInt_negSucc_eq_not_ofNat, ← BitVec.not_xor_left, ← BitVec.not_xor_right, BitVec.not_not]
      exact BitVec.ofNat_xor

end ProgramArt.Word64
