/-!
# Positions counted from either end

A row of `n` places is addressed by an integer: `0, 1, …` count from the front and `-1, -2, …` count back from the
end. Every other integer names no place (`resolve_eq_none_iff`).
-/

namespace ProgramArt.Index

/-- The place that `i` names in a row of `n` places. -/
def resolve (n : Nat) (i : Int) : Option (Fin n) :=
  if 0 ≤ i then
    if h : i.toNat < n then some ⟨i.toNat, h⟩ else none
  else
    if h : i.natAbs ≤ n ∧ 0 < i.natAbs then some ⟨n - i.natAbs, by omega⟩ else none

/-- A count from the front is the place itself. -/
theorem resolve_natCast {n k : Nat} (h : k < n) : resolve n (k : Int) = some ⟨k, h⟩ := by
  simp [resolve, h]

/-- A count `k` from the back names place `n - k`. -/
theorem resolve_neg {n k : Nat} (h₀ : 0 < k) (h : k ≤ n) :
    resolve n (-(k : Int)) = some ⟨n - k, by omega⟩ := by
  rw [resolve, if_neg (by omega), dif_pos (by omega)]
  simp

/-- Before the first count from the back, and from the end on, there is no place. -/
theorem resolve_eq_none_iff {n : Nat} {i : Int} : resolve n i = none ↔ (n : Int) ≤ i ∨ i < -(n : Int) := by
  by_cases hsign : 0 ≤ i
  · by_cases hlt : i.toNat < n
    · simp only [resolve, if_pos hsign, dif_pos hlt, reduceCtorEq, false_iff]
      omega
    · simp only [resolve, if_pos hsign, dif_neg hlt, true_iff]
      omega
  · by_cases hback : i.natAbs ≤ n ∧ 0 < i.natAbs
    · simp only [resolve, if_neg hsign, dif_pos hback, reduceCtorEq, false_iff]
      omega
    · simp only [resolve, if_neg hsign, dif_neg hback, true_iff]
      omega

end ProgramArt.Index
