import Mathlib.Tactic.FieldSimp
import Mathlib.Tactic.Linarith
import Mathlib.Tactic.LinearCombination
import Mathlib.Tactic.Positivity
import Mathlib.Tactic.Ring
import ProgramArt.Host.Standard
import ProgramArt.Interest

/-!
# The variance of an image in exact numbers

In exact numbers it does not matter in which order a row is added up (`sum_eq`), so the score of an image is the
population variance of its bytes as a part of the largest one that there can be. That bound is found by what the
variance falls short of it (`populationVariance_eq_sub`): the distance of the mean from the middle, and how far the
values are from the two ends. Both vanish only if half of the values lie at either end.
-/

namespace ProgramArt.Interest

instance : Numeric ℚ := ⟨fun count => count, fun byte => byte.toNat⟩

/-! ## Sums -/

/-- In exact numbers an order of addition gives the sum of the items that it names. -/
theorem total_eq (xs : Array ℚ) (order : Summation) :
    order.total xs = (order.items.map fun i => xs.getD i 0.0).sum := by
  induction order with
  | nothing =>
    change (0.0 : ℚ) = 0
    norm_num
  | item i => exact List.sum_singleton.symm
  | add left right ihleft ihright => rw [Summation.total, Summation.items, ihleft, ihright, List.map_append,
      List.sum_append]

/-- **All ways to add up a row give its sum.** -/
theorem sum_eq [Host] (xs : Array ℚ) : sum xs = xs.toList.sum := by
  have hrow : (List.range xs.size).map (fun i => xs.getD i 0.0) = xs.toList := by
    refine List.ext_getElem (by simp) fun i hi _ => ?_
    simp [show i < xs.size by simpa using hi]
  rw [sum, total_eq, ((Host.summation_perm xs.size).map _).sum_eq, hrow]

/-! ## The variance -/

/-- The mean of some numbers. -/
def mean (values : List ℚ) : ℚ :=
  values.sum / values.length

/-- The mean of the squared deviations from the mean. -/
def populationVariance (values : List ℚ) : ℚ :=
  (values.map fun v => (v - mean values) ^ 2).sum / values.length

theorem variance_eq [Host] (xs : Array ℚ) : variance xs = populationVariance xs.toList := by
  have hcount : count xs = (xs.toList.length : ℚ) := rfl
  unfold variance populationVariance mean
  dsimp only
  rw [sum_eq, sum_eq, Array.toList_map, hcount]
  simp only [pow_two]

section Values

variable {values : List ℚ}

theorem length_mul_mean (hne : values ≠ []) : values.length * mean values = values.sum := by
  have hlength : (values.length : ℚ) ≠ 0 := Nat.cast_ne_zero.mpr (List.length_eq_zero_iff.not.mpr hne)
  exact mul_div_cancel₀ _ hlength

/-- Squares of distances from any number and products of the distances from both ends complement each other. -/
theorem sum_squares_add_sum_products (values : List ℚ) (m top : ℚ) :
    (values.map fun v => (v - m) ^ 2).sum + (values.map fun v => v * (top - v)).sum
      = (top - 2 * m) * values.sum + values.length * m ^ 2 := by
  induction values with
  | nil => simp
  | cons v values ih =>
    simp only [List.map_cons, List.sum_cons, List.length_cons, Nat.cast_add, Nat.cast_one]
    linear_combination ih

/-- **What a variance falls short of a quarter of the square of the range:** the square of the distance of the mean
from the middle, and the mean product of the distances from both ends. -/
theorem populationVariance_eq_sub (hne : values ≠ []) (top : ℚ) :
    populationVariance values = top ^ 2 / 4
      - ((mean values - top / 2) ^ 2 + (values.map fun v => v * (top - v)).sum / values.length) := by
  have hlength : (values.length : ℚ) ≠ 0 := Nat.cast_ne_zero.mpr (List.length_eq_zero_iff.not.mpr hne)
  have hsums := sum_squares_add_sum_products values (mean values) top
  rw [← length_mul_mean hne] at hsums
  unfold populationVariance
  rw [eq_sub_of_add_eq hsums]
  field_simp
  ring

theorem populationVariance_nonneg (values : List ℚ) : 0 ≤ populationVariance values := by
  refine div_nonneg (List.sum_nonneg ?_) (Nat.cast_nonneg _)
  intro square hsquare
  obtain ⟨v, _, rfl⟩ := List.mem_map.mp hsquare
  exact sq_nonneg _

/-- There is no variance only if there is no deviation. -/
theorem populationVariance_eq_zero_iff : populationVariance values = 0 ↔ ∀ v ∈ values, v = mean values := by
  unfold populationVariance
  constructor
  · intro h v hv
    have hlength : (values.length : ℚ) ≠ 0 := Nat.cast_ne_zero.mpr (List.length_pos_of_mem hv).ne'
    have hsum := (div_eq_zero_iff.mp h).resolve_right hlength
    have hsquare : (v - mean values) ^ 2 = 0 := by
      refine List.all_zero_of_le_zero_le_of_sum_eq_zero ?_ hsum (List.mem_map_of_mem hv)
      intro square hsquare
      obtain ⟨w, _, rfl⟩ := List.mem_map.mp hsquare
      exact sq_nonneg _
    exact sub_eq_zero.mp (pow_eq_zero_iff two_ne_zero |>.mp hsquare)
  · intro h
    rw [List.sum_eq_zero, zero_div]
    intro square hsquare
    obtain ⟨v, hv, rfl⟩ := List.mem_map.mp hsquare
    rw [h v hv, sub_self, zero_pow two_ne_zero]

variable {top : ℚ} (hrange : ∀ v ∈ values, 0 ≤ v ∧ v ≤ top)
include hrange

theorem products_nonneg : ∀ product ∈ values.map (fun v => v * (top - v)), 0 ≤ product := by
  intro product hproduct
  obtain ⟨v, hv, rfl⟩ := List.mem_map.mp hproduct
  exact mul_nonneg (hrange v hv).1 (sub_nonneg.mpr (hrange v hv).2)

/-- **Numbers of a range have a variance of at most a quarter of its square.** -/
theorem populationVariance_le (hne : values ≠ []) : populationVariance values ≤ top ^ 2 / 4 := by
  have hproducts : 0 ≤ (values.map fun v => v * (top - v)).sum / values.length :=
    div_nonneg (List.sum_nonneg (products_nonneg hrange)) (Nat.cast_nonneg _)
  rw [populationVariance_eq_sub hne top]
  linarith [sq_nonneg (mean values - top / 2)]

/-- **The variance is largest only if all numbers lie at the ends of the range, and their mean in the middle.** -/
theorem populationVariance_eq_iff (hne : values ≠ []) :
    populationVariance values = top ^ 2 / 4 ↔ mean values = top / 2 ∧ ∀ v ∈ values, v = 0 ∨ v = top := by
  have hlength : (values.length : ℚ) ≠ 0 := Nat.cast_ne_zero.mpr (List.length_eq_zero_iff.not.mpr hne)
  have hsum := List.sum_nonneg (products_nonneg hrange)
  have hproducts : 0 ≤ (values.map fun v => v * (top - v)).sum / values.length :=
    div_nonneg hsum (Nat.cast_nonneg _)
  rw [populationVariance_eq_sub hne top]
  constructor
  · intro h
    -- both parts of the shortfall vanish, since neither is negative
    have hmiddle : (mean values - top / 2) ^ 2 = 0 := by
      linarith [sq_nonneg (mean values - top / 2)]
    have hends : (values.map fun v => v * (top - v)).sum / values.length = 0 := by linarith
    refine ⟨sub_eq_zero.mp ((pow_eq_zero_iff two_ne_zero).mp hmiddle), ?_⟩
    intro v hv
    have hproduct := List.all_zero_of_le_zero_le_of_sum_eq_zero (products_nonneg hrange)
      ((div_eq_zero_iff.mp hends).resolve_right hlength) (List.mem_map_of_mem hv)
    rcases mul_eq_zero.mp hproduct with hv | hv
    · exact .inl hv
    · exact .inr (sub_eq_zero.mp hv).symm
  · rintro ⟨hmean, hends⟩
    have hzero : (values.map fun v => v * (top - v)).sum = 0 := by
      refine List.sum_eq_zero ?_
      intro product hproduct
      obtain ⟨v, hv, rfl⟩ := List.mem_map.mp hproduct
      rcases hends v hv with rfl | rfl <;> ring
    rw [hmean, hzero]
    ring

end Values

/-! ## Bytes -/

/-- The values of bytes. -/
def byteValues (pixels : List UInt8) : List ℚ :=
  pixels.map fun byte => (byte.toNat : ℚ)

section Bytes

variable {pixels : List UInt8}

theorem mem_byteValues {byte : UInt8} (h : byte ∈ pixels) : (byte.toNat : ℚ) ∈ byteValues pixels :=
  List.mem_map_of_mem h

theorem byteValues_range : ∀ v ∈ byteValues pixels, 0 ≤ v ∧ v ≤ 255 := by
  intro v hv
  obtain ⟨byte, _, rfl⟩ := List.mem_map.mp hv
  have hbyte := byte.toNat_lt
  exact ⟨Nat.cast_nonneg _, by exact_mod_cast Nat.le_of_lt_succ hbyte⟩

theorem byteValues_ne_nil (hne : pixels ≠ []) : byteValues pixels ≠ [] :=
  List.map_eq_nil_iff.not.mpr hne

/-- **In exact numbers the share of an image is the population variance of its bytes**, as a part of the square of half
the range. -/
theorem share_eq [Host] (pixels : List UInt8) :
    (share pixels : ℚ) = populationVariance (byteValues pixels) / (127.5 : ℚ) ^ 2 := by
  have hmax : (maxVariance : ℚ) = 127.5 ^ 2 := by
    unfold maxVariance
    ring
  unfold share
  rw [variance_eq, hmax]
  rfl

theorem share_nonneg [Host] (pixels : List UInt8) : 0 ≤ (share pixels : ℚ) := by
  rw [share_eq]
  exact div_nonneg (populationVariance_nonneg _) (by norm_num)

theorem share_nil [Host] : (share [] : ℚ) = 0 := by
  rw [share_eq, populationVariance_eq_zero_iff.mpr (by simp [byteValues]), zero_div]

theorem share_le_one [Host] (pixels : List UInt8) : (share pixels : ℚ) ≤ 1 := by
  by_cases hne : pixels = []
  · rw [hne, share_nil]
    exact zero_le_one
  · rw [share_eq, div_le_one (by norm_num)]
    refine (populationVariance_le byteValues_range (byteValues_ne_nil hne)).trans (le_of_eq ?_)
    norm_num

/-- **The score is never cut off.** -/
theorem ofBytes_eq_share [Host] (pixels : List UInt8) : (ofBytes pixels : ℚ) = share pixels := by
  have hone : (1.0 : ℚ) = 1 := by norm_num
  unfold ofBytes
  split
  · rename_i hempty
    rw [List.isEmpty_iff.mp hempty, share_nil]
    norm_num
  · dsimp only
    rw [hone]
    split
    · rfl
    · rename_i hless
      exact le_antisymm (not_lt.mp hless) (share_le_one pixels)

/-- Bytes are equal to one number only if they are all equal. -/
theorem share_eq_zero_iff [Host] : (share pixels : ℚ) = 0 ↔ pixels = [] ∨ ∃ byte, ∀ other ∈ pixels, other = byte := by
  rw [share_eq, div_eq_zero_iff, or_iff_left (by norm_num), populationVariance_eq_zero_iff]
  constructor
  · intro h
    cases pixels with
    | nil => exact .inl rfl
    | cons byte pixels =>
      refine .inr ⟨byte, fun other hother => ?_⟩
      -- all values are equal to the mean
      have hvalue (other : UInt8) (hother : other ∈ byte :: pixels) :=
        h (other.toNat : ℚ) (mem_byteValues hother)
      have hsame := (hvalue other hother).trans (hvalue byte List.mem_cons_self).symm
      exact UInt8.toNat_inj.mp (Nat.cast_injective hsame)
  · rintro (rfl | ⟨byte, hsame⟩)
    · simp [byteValues]
    · have hall : byteValues pixels = List.replicate pixels.length (byte.toNat : ℚ) := by
        refine List.eq_replicate_iff.mpr ⟨List.length_map _, ?_⟩
        intro v hv
        obtain ⟨other, hother, rfl⟩ := List.mem_map.mp hv
        rw [hsame other hother]
      intro v hv
      have hlength : (pixels.length : ℚ) ≠ 0 := by
        rw [hall] at hv
        exact Nat.cast_ne_zero.mpr (List.mem_replicate.mp hv).1
      have hmean : mean (byteValues pixels) = byte.toNat := by
        unfold mean
        rw [hall, List.sum_replicate, List.length_replicate, nsmul_eq_mul]
        exact mul_div_cancel_left₀ _ hlength
      rw [hmean]
      rw [hall] at hv
      exact (List.mem_replicate.mp hv).2

/-- Bytes at either end are counted by two counts. -/
theorem count_ends (pixels : List UInt8) :
    pixels.count 0 + pixels.count 255 = pixels.countP fun byte => byte = 0 ∨ byte = 255 := by
  induction pixels with
  | nil => rfl
  | cons byte pixels ih =>
    rw [List.count_cons, List.count_cons, List.countP_cons, ← ih]
    by_cases hzero : byte = 0
    · subst hzero
      rw [if_pos BEq.rfl, if_neg (by decide), if_pos (by decide)]
      omega
    · by_cases htop : byte = 255
      · subst htop
        rw [if_neg (by decide), if_pos BEq.rfl, if_pos (by decide)]
        omega
      · simp [hzero, htop]

theorem count_ends_eq_length_iff :
    pixels.count 0 + pixels.count 255 = pixels.length ↔ ∀ byte ∈ pixels, byte = 0 ∨ byte = 255 := by
  rw [count_ends, List.countP_eq_length]
  simp only [decide_eq_true_eq]

theorem sum_byteValues_ends (hends : ∀ byte ∈ pixels, byte = 0 ∨ byte = 255) :
    (byteValues pixels).sum = 255 * (pixels.count 255 : ℚ) := by
  induction pixels with
  | nil => simp [byteValues]
  | cons byte pixels ih =>
    obtain ⟨hbyte, hrest⟩ := List.forall_mem_cons.mp hends
    have hsum : (byteValues (byte :: pixels)).sum = byte.toNat + (byteValues pixels).sum := rfl
    rw [hsum, ih hrest]
    rcases hbyte with rfl | rfl
    · rw [List.count_cons_of_ne (by decide)]
      exact zero_add _
    · have htop : ((255 : UInt8).toNat : ℚ) = 255 := rfl
      rw [List.count_cons_self, htop, Nat.cast_add, Nat.cast_one]
      ring

/-- **The variance is largest only if half of the bytes lie at either end.** -/
theorem share_eq_one_iff [Host] : (share pixels : ℚ) = 1
    ↔ pixels ≠ [] ∧ 2 * pixels.count 0 = pixels.length ∧ 2 * pixels.count 255 = pixels.length := by
  by_cases hne : pixels = []
  · rw [hne, share_nil]
    simp
  have hlength : (pixels.length : ℚ) ≠ 0 := Nat.cast_ne_zero.mpr (List.length_eq_zero_iff.not.mpr hne)
  have hcount : ((byteValues pixels).length : ℚ) = pixels.length := congrArg Nat.cast (List.length_map _)
  have hmax : (127.5 : ℚ) ^ 2 = 255 ^ 2 / 4 := by norm_num
  -- if all values are at the ends, the mean tells how many there are at each
  have hmiddle (hends : ∀ byte ∈ pixels, byte = 0 ∨ byte = 255) :
      mean (byteValues pixels) = 255 / 2 ↔ 2 * pixels.count 255 = pixels.length := by
    unfold mean
    rw [sum_byteValues_ends hends, hcount, div_eq_div_iff hlength two_ne_zero, mul_assoc,
      mul_right_inj' (by norm_num), mul_comm (pixels.count 255 : ℚ)]
    exact_mod_cast Iff.rfl
  rw [share_eq, div_eq_one_iff_eq (by norm_num), hmax,
    populationVariance_eq_iff byteValues_range (byteValues_ne_nil hne)]
  constructor
  · rintro ⟨hmean, hvalues⟩
    have hends : ∀ byte ∈ pixels, byte = 0 ∨ byte = 255 := by
      intro byte hbyte
      refine (hvalues _ (mem_byteValues hbyte)).imp ?_ ?_
      · intro hzero
        exact UInt8.toNat_inj.mp (Nat.cast_eq_zero.mp hzero)
      · intro htop
        exact UInt8.toNat_inj.mp (by exact_mod_cast htop)
    have htop := (hmiddle hends).mp hmean
    have hall := count_ends_eq_length_iff.mpr hends
    exact ⟨hne, by omega, htop⟩
  · rintro ⟨_, hzero, htop⟩
    have hends := count_ends_eq_length_iff.mp (show pixels.count 0 + pixels.count 255 = pixels.length by omega)
    refine ⟨(hmiddle hends).mpr htop, ?_⟩
    intro v hv
    obtain ⟨byte, hbyte, rfl⟩ := List.mem_map.mp hv
    rcases hends byte hbyte with rfl | rfl
    · exact .inl rfl
    · exact .inr rfl

end Bytes

/-! ## Images that are rearranged or inverted -/

theorem populationVariance_perm {values others : List ℚ} (h : others.Perm values) :
    populationVariance others = populationVariance values := by
  have hmean : mean others = mean values := by
    unfold mean
    rw [h.sum_eq, h.length_eq]
  unfold populationVariance
  rw [hmean, (h.map _).sum_eq, h.length_eq]

theorem sum_map_top_sub (values : List ℚ) (top : ℚ) :
    (values.map (top - ·)).sum = values.length * top - values.sum := by
  induction values with
  | nil => simp
  | cons v values ih =>
    rw [List.map_cons, List.sum_cons, ih, List.sum_cons, List.length_cons, Nat.cast_add, Nat.cast_one]
    ring

/-- Numbers deviate as much from their mean if they are counted from the other end. -/
theorem populationVariance_map_sub (values : List ℚ) (top : ℚ) :
    populationVariance (values.map (top - ·)) = populationVariance values := by
  by_cases hne : values = []
  · rw [hne]
    rfl
  have hlength : (values.length : ℚ) ≠ 0 := Nat.cast_ne_zero.mpr (List.length_eq_zero_iff.not.mpr hne)
  have hmean : mean (values.map (top - ·)) = top - mean values := by
    unfold mean
    rw [sum_map_top_sub, List.length_map, sub_div, mul_div_cancel_left₀ _ hlength]
  unfold populationVariance
  rw [hmean, List.map_map, List.length_map]
  congr 2
  refine List.map_congr_left fun v _ => ?_
  rw [Function.comp_apply]
  ring

theorem byteValues_inverted (pixels : List UInt8) :
    byteValues (pixels.map (255 - ·)) = (byteValues pixels).map (255 - ·) := by
  unfold byteValues
  rw [List.map_map, List.map_map]
  refine List.map_congr_left fun byte _ => ?_
  have hle : byte ≤ 255 := UInt8.le_iff_toNat_le.mpr (Nat.le_of_lt_succ byte.toNat_lt)
  rw [Function.comp_apply, Function.comp_apply, UInt8.toNat_sub_of_le _ _ hle,
    Nat.cast_sub (UInt8.le_iff_toNat_le.mp hle)]
  rfl

/-! ## The score in exact numbers -/

/-- **In exact numbers the score of an image is the variance of its bytes, as a part of the largest one that there can
be.** It lies between zero and one, so that it is never cut off. It is zero only for an image that is empty or of one
value, and one only if half of the bytes are least and half of them greatest. It depends neither on the order of the
bytes nor on the end that they are counted from. -/
theorem exact_score [Host] (pixels : List UInt8) :
    (share pixels : ℚ) = populationVariance (byteValues pixels) / (127.5 : ℚ) ^ 2
    ∧ 0 ≤ (share pixels : ℚ) ∧ (share pixels : ℚ) ≤ 1
    ∧ (ofBytes pixels : ℚ) = share pixels
    ∧ ((ofBytes pixels : ℚ) = 0 ↔ pixels = [] ∨ ∃ byte, ∀ other ∈ pixels, other = byte)
    ∧ ((ofBytes pixels : ℚ) = 1
      ↔ pixels ≠ [] ∧ 2 * pixels.count 0 = pixels.length ∧ 2 * pixels.count 255 = pixels.length)
    ∧ (∀ others : List UInt8, others.Perm pixels → (ofBytes others : ℚ) = ofBytes pixels)
    ∧ (ofBytes (pixels.map (255 - ·)) : ℚ) = ofBytes pixels := by
  refine ⟨share_eq pixels, share_nonneg pixels, share_le_one pixels, ofBytes_eq_share pixels, ?_, ?_, ?_, ?_⟩
  · rw [ofBytes_eq_share]
    exact share_eq_zero_iff
  · rw [ofBytes_eq_share]
    exact share_eq_one_iff
  · intro others hperm
    rw [ofBytes_eq_share, ofBytes_eq_share, share_eq, share_eq]
    exact congrArg (· / (127.5 : ℚ) ^ 2) (populationVariance_perm (hperm.map _))
  · rw [ofBytes_eq_share, ofBytes_eq_share, share_eq, share_eq, byteValues_inverted, populationVariance_map_sub]

open scoped Host in
/-- A checkered image has the greatest score, and so has one that is divided into halves. -/
theorem exact_score_checkered :
    [(0 : UInt8), 0, 255, 255].Perm [0, 255, 255, 0] ∧ (ofBytes [0, 255, 255, 0] : ℚ) = 1
    ∧ (ofBytes [0, 0, 255, 255] : ℚ) = ofBytes [0, 255, 255, 0] := by
  have hperm : [(0 : UInt8), 0, 255, 255].Perm [0, 255, 255, 0] := by decide
  obtain ⟨_, _, _, _, _, hone, hrearranged, _⟩ := exact_score [0, 255, 255, 0]
  exact ⟨hperm, hone.mpr (by decide), hrearranged _ hperm⟩

end ProgramArt.Interest
