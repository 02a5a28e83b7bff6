import ProgramArt.Proofs.Beat.Safety
import ProgramArt.Proofs.Number.Bits

/-!
# The integer operators of a 64-bit machine

The operators of formulas compute with integers of any size and bring their results into the range of words. On words
each of them does what the operator of a machine with 64-bit registers does, bit by bit (`IntOp.ofInt_apply`). The two
operators of division go together: quotient and remainder give the dividend back, up to the one quotient that is no
word (`wrap_quotient_mul_add`).
-/

namespace ProgramArt

/-- An operator on 64-bit registers. Division drops the fraction, and the remainder has the sign of the dividend; both
are zero for a zero divisor. Shifts go by the low six bits of the second register, and the sign fills up from the
left. -/
def Beat.IntOp.machine : Beat.IntOp → BitVec 64 → BitVec 64 → BitVec 64
  | add, x, y => x + y
  | sub, x, y => x - y
  | mul, x, y => x * y
  | div, x, y => x.sdiv y
  | mod, x, y => if y = 0 then 0 else x.srem y
  | shl, x, y => x <<< y.setWidth 6
  | shr, x, y => x.sshiftRight' (y.setWidth 6)
  | and, x, y => x &&& y
  | or, x, y => x ||| y
  | xor, x, y => x ^^^ y

namespace Word64

variable {a b : Int}

/-! ## Division and shifts on registers -/

/-- A word is what its register holds. -/
theorem toInt_ofInt_of_isWord (h : IsWord a) : (BitVec.ofInt 64 a).toInt = a := by
  rw [toInt_ofInt, wrap_of_isWord h]

theorem ofInt_eq_zero_iff (h : IsWord a) : BitVec.ofInt 64 a = 0 ↔ a = 0 := by
  constructor
  · intro hzero
    rw [← toInt_ofInt_of_isWord h, hzero]
    rfl
  · intro hzero
    rw [hzero]
    rfl

theorem ofInt_quotient (ha : IsWord a) (hb : IsWord b) :
    BitVec.ofInt 64 (quotient a b) = (BitVec.ofInt 64 a).sdiv (BitVec.ofInt 64 b) := by
  apply BitVec.eq_of_toInt_eq
  rw [BitVec.toInt_sdiv, toInt_ofInt_of_isWord ha, toInt_ofInt_of_isWord hb,
    toInt_ofInt_of_isWord (isWord_quotient a b), quotient_eq_wrap_tdiv, wrap_eq_bmod]

theorem ofInt_remainder (ha : IsWord a) (hb : IsWord b) (hne : b ≠ 0) :
    BitVec.ofInt 64 (remainder a b) = (BitVec.ofInt 64 a).srem (BitVec.ofInt 64 b) := by
  rw [remainder_of_ne_zero a hne, ofInt_wrap (Nat.le_refl 64)]
  -- the remainder of two registers fits into one without wrapping
  have hsrem := BitVec.toInt_srem (BitVec.ofInt 64 a) (BitVec.ofInt 64 b)
  rw [toInt_ofInt_of_isWord ha, toInt_ofInt_of_isWord hb] at hsrem
  rw [← hsrem, BitVec.ofInt_toInt]

theorem ofInt_shiftLeft (a amount : Int) :
    BitVec.ofInt 64 (shiftLeft a amount) = BitVec.ofInt 64 a <<< (BitVec.ofInt 64 amount).setWidth 6 := by
  rw [shiftLeft, ofInt_wrap (Nat.le_refl 64), ofInt_shl, places_eq]
  rfl

theorem ofInt_shiftRight (h : IsWord a) (amount : Int) :
    BitVec.ofInt 64 (shiftRight a amount)
      = (BitVec.ofInt 64 a).sshiftRight' ((BitVec.ofInt 64 amount).setWidth 6) := by
  apply BitVec.eq_of_toInt_eq
  rw [toInt_ofInt_of_isWord (isWord_shiftRight h amount), BitVec.sshiftRight', BitVec.toInt_sshiftRight,
    toInt_ofInt_of_isWord h, ← places_eq]
  rfl

/-! ## Quotient and remainder -/

theorem natAbs_tmod_lt (a : Int) (hne : b ≠ 0) : (Int.tmod a b).natAbs < b.natAbs := by
  rw [Int.natAbs_tmod]
  exact Nat.mod_lt _ (Int.natAbs_pos.mpr hne)

/-- The remainder is less than the divisor, so that it is a word before it is wrapped. -/
theorem remainder_eq_tmod (a : Int) (hb : IsWord b) (hne : b ≠ 0) : remainder a b = Int.tmod a b := by
  have hlt := natAbs_tmod_lt a hne
  rw [remainder_of_ne_zero a hne]
  apply wrap_of_isWord
  rw [isWord_iff] at hb ⊢
  omega

theorem abs_remainder_lt (a : Int) (hb : IsWord b) (hne : b ≠ 0) : |remainder a b| < |b| := by
  rw [remainder_eq_tmod a hb hne, Int.abs_eq_natAbs, Int.abs_eq_natAbs]
  exact Int.ofNat_lt.mpr (natAbs_tmod_lt a hne)

/-- The remainder is zero or has the sign of the dividend. -/
theorem mul_remainder_nonneg (a : Int) (hb : IsWord b) (hne : b ≠ 0) : 0 ≤ a * remainder a b := by
  rw [remainder_eq_tmod a hb hne]
  rcases Int.le_total 0 a with hpos | hneg
  · exact Int.mul_nonneg hpos (Int.tmod_nonneg b hpos)
  · have hflip : 0 ≤ Int.tmod (-a) b := Int.tmod_nonneg b (Int.neg_nonneg_of_nonpos hneg)
    rw [Int.neg_tmod] at hflip
    exact Int.mul_nonneg_of_nonpos_of_nonpos hneg (Int.nonpos_of_neg_nonneg hflip)

/-- **Quotient and remainder give the dividend back.** The one quotient that is wrapped, of the least word by minus one,
is off by a multiple of `2 ^ 64`, which the last wrapping takes away. -/
theorem wrap_quotient_mul_add (ha : IsWord a) (hne : b ≠ 0) : wrap (quotient a b * b + remainder a b) = a := by
  have hbits : BitVec.ofInt 64 (quotient a b * b + remainder a b) = BitVec.ofInt 64 a := by
    rw [quotient_eq_wrap_tdiv, remainder_of_ne_zero a hne, BitVec.ofInt_add, BitVec.ofInt_mul,
      ofInt_wrap (Nat.le_refl 64),
      ofInt_wrap (Nat.le_refl 64), ← BitVec.ofInt_mul, ← BitVec.ofInt_add, Int.tdiv_mul_add_tmod]
  rw [← toInt_ofInt, hbits, toInt_ofInt_of_isWord ha]

end Word64

namespace Beat

open Word64

/-- **An operator on words is the operator of the machine.** -/
theorem IntOp.ofInt_apply (op : IntOp) {a b : Int} (ha : IsWord a) (hb : IsWord b) :
    BitVec.ofInt 64 (op.apply a b) = op.machine (BitVec.ofInt 64 a) (BitVec.ofInt 64 b) := by
  cases op with
  | add =>
    show BitVec.ofInt 64 (wrap (a + b)) = _
    rw [ofInt_wrap (Nat.le_refl 64), BitVec.ofInt_add]
    rfl
  | sub =>
    show BitVec.ofInt 64 (wrap (a - b)) = _
    rw [ofInt_wrap (Nat.le_refl 64), ofInt_sub]
    rfl
  | mul =>
    show BitVec.ofInt 64 (wrap (a * b)) = _
    rw [ofInt_wrap (Nat.le_refl 64), BitVec.ofInt_mul]
    rfl
  | div => exact ofInt_quotient ha hb
  | mod =>
    show BitVec.ofInt 64 (remainder a b) = if BitVec.ofInt 64 b = 0 then 0 else _
    by_cases hzero : b = 0
    · rw [if_pos ((ofInt_eq_zero_iff hb).mpr hzero), remainder, if_pos hzero]
      rfl
    · rw [if_neg fun h => hzero ((ofInt_eq_zero_iff hb).mp h)]
      exact ofInt_remainder ha hb hzero
  | shl => exact ofInt_shiftLeft a b
  | shr => exact ofInt_shiftRight ha b
  | and => exact ofInt_and a b
  | or => exact ofInt_or a b
  | xor => exact ofInt_xor a b

/-- **The integer operators are those of a 64-bit machine.** On words every operator gives a word, and its bits are
those that the machine computes from the bits of the operands. A division by zero gives zero, and so does its
remainder; the least word divided by minus one is itself. For any other divisor than zero, quotient and remainder give
the dividend back, and the remainder is less than the divisor and has the sign of the dividend. Wrapping an integer of
any size reads its low 64 bits with their sign. -/
theorem intOps_are_machine_ops :
    (∀ (op : IntOp) (a b : Int), IsWord a → IsWord b →
      BitVec.ofInt 64 (op.apply a b) = op.machine (BitVec.ofInt 64 a) (BitVec.ofInt 64 b) ∧ IsWord (op.apply a b)) ∧
    (∀ a : Int, IntOp.div.apply a 0 = 0 ∧ IntOp.mod.apply a 0 = 0) ∧
    IntOp.div.apply minValue (-1) = minValue ∧
    (∀ a b : Int, IsWord a → IsWord b → b ≠ 0 →
      wrap (IntOp.div.apply a b * b + IntOp.mod.apply a b) = a ∧
      |IntOp.mod.apply a b| < |b| ∧ 0 ≤ a * IntOp.mod.apply a b) ∧
    ∀ n : Int, wrap n = (BitVec.ofInt 64 n).toInt := by
  refine ⟨?_, ?_, by decide, ?_, fun n => (toInt_ofInt n).symm⟩
  · intro op a b ha hb
    exact ⟨op.ofInt_apply ha hb, op.isWord_apply ha hb⟩
  · intro a
    constructor
    · show quotient a 0 = 0
      exact if_pos rfl
    · show remainder a 0 = 0
      exact if_pos rfl
  · intro a b ha hb hne
    exact ⟨wrap_quotient_mul_add ha hne, abs_remainder_lt a hb hne, mul_remainder_nonneg a hb hne⟩

/-- The least word by minus one, and a shift by minus one. -/
theorem intOps_are_machine_ops_least :
    IsWord minValue ∧ IsWord (-1) ∧ (-1 : Int) ≠ 0 ∧
    BitVec.ofInt 64 (IntOp.shr.apply minValue (-1)) = BitVec.allOnes 64 ∧
    wrap (IntOp.div.apply minValue (-1) * -1 + IntOp.mod.apply minValue (-1)) = minValue ∧
    |IntOp.mod.apply minValue (-1)| < |(-1 : Int)| ∧ 0 ≤ minValue * IntOp.mod.apply minValue (-1) := by
  have hleast : IsWord minValue := by decide
  have hone : IsWord (-1) := by decide
  obtain ⟨hmachine, -, -, hdivision, -⟩ := intOps_are_machine_ops
  refine ⟨hleast, hone, by decide, ?_, hdivision minValue (-1) hleast hone (by decide)⟩
  rw [(hmachine .shr minValue (-1) hleast hone).1]
  decide

end Beat

end ProgramArt
