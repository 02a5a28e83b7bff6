import ProgramArt.Decimal.Layout
import ProgramArt.Host
import ProgramArt.Number.Power
import ProgramArt.Number.Trig

/-!
# The host that programs are run on

Its functions on doubles give the nearest double, and it adds up long rows by halves (`Summation.halves`), which keeps
the rounding error small: a row is split in two, at a multiple of eight, until its parts are blocks, and a block is
eight interleaved sums.
-/

namespace ProgramArt

namespace Summation

/-- Add the numbers from place `first` on in turn to a sum. -/
def inTurn (start : Summation) (first count : Nat) : Summation :=
  (List.range count).foldl (fun sum i => sum.add (item (first + i))) start

/-- The sum of every eighth number from place `first` on, and of `count` more. -/
def lane (first count : Nat) : Summation :=
  (List.range count).foldl (fun sum i => sum.add (item (first + 8 * (i + 1)))) (item first)

/-- The sum of a block of at least eight numbers: eight interleaved sums, added in pairs, and then what is left over in
turn. -/
def block (first count : Nat) : Summation :=
  let eighths := count / 8
  let lane (i : Nat) : Summation := lane (first + i) (eighths - 1)
  let sum := add (add (add (lane 0) (lane 1)) (add (lane 2) (lane 3)))
    (add (add (lane 4) (lane 5)) (add (lane 6) (lane 7)))
  sum.inTurn (first + 8 * eighths) (count % 8)

/-- The sum by halves of `count` numbers from place `first` on. -/
def halves : (fuel first count : Nat) → Summation
  | 0, first, count => inTurn nothing first count
  | fuel + 1, first, count =>
    if count < 8 then inTurn nothing first count
    else if count ≤ 128 then block first count
    else
      let half := count / 2 - count / 2 % 8
      add (halves fuel first half) (halves fuel (first + half) (count - half))

theorem items_inTurn (start : Summation) (first count : Nat) :
    (start.inTurn first count).items = start.items ++ List.range' first count := by
  induction count with
  | zero => simp [inTurn]
  | succ count ih =>
    rw [inTurn, List.range_succ, List.foldl_append, ← inTurn]
    simp [items, ih, List.range'_concat]

theorem items_lane_succ (first count : Nat) :
    (lane first (count + 1)).items = (lane first count).items ++ [first + 8 * (count + 1)] := by
  rw [lane, List.range_succ, List.foldl_append, ← lane]
  rfl

/-- Eight interleaved sums add all numbers of as many rows of eight. -/
theorem items_lanes (first rows : Nat) :
    (((lane first rows).items ++ (lane (first + 1) rows).items ++
        ((lane (first + 2) rows).items ++ (lane (first + 3) rows).items)) ++
      ((lane (first + 4) rows).items ++ (lane (first + 5) rows).items ++
        ((lane (first + 6) rows).items ++ (lane (first + 7) rows).items))).Perm
      (List.range' first (8 * (rows + 1))) := by
  induction rows with
  | zero => exact .refl _
  | succ rows ih =>
    have hlast : List.range' first (8 * (rows + 1 + 1))
        = List.range' first (8 * (rows + 1)) ++ List.range' (first + 8 * (rows + 1)) 8 := by
      rw [List.range'_append_1, Nat.mul_add 8 (rows + 1) 1]
    rw [hlast]
    refine .trans ?_ (ih.append_right _)
    simp only [items_lane_succ, List.perm_iff_count, List.count_append, List.range'_succ, List.range'_zero,
      List.count_cons, List.count_nil]
    intro place
    simp only [show ∀ i, first + i + 8 * (rows + 1) = first + 8 * (rows + 1) + i by omega,
      show ∀ i j, first + 8 * (rows + 1) + i + j = first + 8 * (rows + 1) + (i + j) by omega, Nat.reduceAdd]
    omega

theorem items_block (first : Nat) {count : Nat} (h : 8 ≤ count) :
    (block first count).items.Perm (List.range' first count) := by
  have hrows : count / 8 - 1 + 1 = count / 8 := by omega
  have hlanes := items_lanes first (count / 8 - 1)
  rw [hrows] at hlanes
  have hall : List.range' first count
      = List.range' first (8 * (count / 8)) ++ List.range' (first + 8 * (count / 8)) (count % 8) := by
    rw [List.range'_append_1, Nat.div_add_mod]
  rw [hall, block, items_inTurn]
  exact hlanes.append_right _

/-- **Adding by halves adds every number once.** -/
theorem items_halves (fuel first count : Nat) : (halves fuel first count).items.Perm (List.range' first count) := by
  induction fuel generalizing first count with
  | zero =>
    rw [halves, items_inTurn]
    exact .refl _
  | succ fuel ih =>
    rw [halves]
    split
    · rw [items_inTurn]
      exact .refl _
    · split
      · exact items_block first (by omega)
      · have hparts : List.range' first count = List.range' first (count / 2 - count / 2 % 8)
            ++ List.range' (first + (count / 2 - count / 2 % 8)) (count - (count / 2 - count / 2 % 8)) := by
          rw [List.range'_append_1, Nat.add_sub_cancel' (by omega)]
        rw [hparts]
        exact (ih _ _).append (ih _ _)

end Summation

namespace Host

/-- The host that programs are run on. It is the ambient one where `Host` is opened. -/
scoped instance standard : Host where
  roomBound := (Nat.pow 2 30 : Nat)
  imageBound := Nat.pow 2 36
  documentDepth := 983
  entryDepth := 491
  entryDepth_le := by decide
  settingDepth := 493
  itemDepth := 490
  missingDepth := 985
  patience length := 2 * length.toNat + Nat.pow 2 40
  lt_patience length := by
    have hmany : 2 < Nat.pow 2 40 := by decide
    omega
  sin := Trig.sin
  cos := Trig.cos
  tan := Trig.tan
  pow := Power.pow
  summation count := Summation.halves 64 0 count
  summation_perm count := by
    rw [List.range_eq_range']
    exact Summation.items_halves 64 0 count
  positional := Decimal.positional
  aboutText _ := "the file holds no JSON document"
  aboutEntries _ := "the document holds something else than entries"

end Host

end ProgramArt
