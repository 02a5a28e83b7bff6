import Mathlib.Algebra.Order.Floor.Div
import Mathlib.Order.Interval.Finset.Nat
import ProgramArt.Piece.Picture
import ProgramArt.Proofs.Number.Bits
import ProgramArt.Proofs.Picture.Pixels

/-!
# Scaling an image

A formula's image is drawn in green. Each row and each column of the picture shows the row and the column of the image
that is nearest to it, counted in proportion (`sourceIndex_eq_proportion`). The places that show a given row are an
interval, and no row gets more than one place more than another: `Balanced`. `sourceIndex` counts in words, so this is
so exactly as long as no product of a place and the source is beyond them. Beyond them a place may show a row out of
order, but still one that is there (`sourceIndex_lt`).
-/

namespace ProgramArt

/-! ## Proportions -/

/-- The row of a source of `source` rows that place `i` of `target` shows in proportion, rounded down. -/
def proportion (source target i : Nat) : Nat :=
  i * source / target

section

variable {source target row i : Nat}

/-- **The places of a row are an interval,** from one rounded proportion to the next. -/
theorem proportion_eq_iff (hsource : 0 < source) (htarget : 0 < target) :
    proportion source target i = row
      ↔ row * target ⌈/⌉ source ≤ i ∧ i < (row + 1) * target ⌈/⌉ source := by
  rw [← not_le, ceilDiv_le_iff_le_mul hsource, ceilDiv_le_iff_le_mul hsource, not_le, Nat.mul_comm source i,
    ← Nat.le_div_iff_mul_le htarget, ← Nat.div_lt_iff_lt_mul htarget, proportion]
  omega

/-! ## Products in words -/

/-- The products of all places of `target` with `source` are words. -/
def InWords (source target : Nat) : Prop :=
  (target - 1) * source < 2 ^ 63

instance (source target : Nat) : Decidable (InWords source target) :=
  inferInstanceAs (Decidable ((target - 1) * source < 2 ^ 63))

theorem InWords.mul_lt (h : InWords source target) (hi : i < target) : i * source < 2 ^ 63 :=
  Nat.lt_of_le_of_lt (Nat.mul_le_mul_right source (by omega)) h

/-- As long as the product is a word, `sourceIndex` is the `proportion`. -/
theorem sourceIndex_eq_proportion (h : i * source < 2 ^ 63) :
    sourceIndex source target i = proportion source target i := by
  have hword : Word64.IsWord ((i * source : Nat) : Int) := by
    rw [Word64.isWord_iff]
    omega
  rw [sourceIndex, ← Int.natCast_mul, Word64.wrap_of_isWord hword, proportion, Int.natCast_ediv,
    Int.fdiv_eq_ediv_of_nonneg _ (Int.natCast_nonneg _)]

/-- A product that is no word is less than the product of the sizes, and so is its wrapping. -/
theorem abs_wrap_mul_le (hi : i < target) (hsource : 0 < source) :
    -((source * target : Nat) : Int) ≤ Word64.wrap (i * source)
      ∧ Word64.wrap (i * source) < ((source * target : Nat) : Int) := by
  have hlt : i * source < source * target := by
    rw [Nat.mul_comm source]
    exact Nat.mul_lt_mul_of_pos_right hi hsource
  have hword := Word64.isWord_iff.mp (Word64.isWord_wrap (i * source))
  by_cases hsmall : i * source < 2 ^ 63
  · have hself : Word64.wrap (i * source) = ((i * source : Nat) : Int) := by
      rw [← Int.natCast_mul, Word64.wrap_of_isWord (Word64.isWord_iff.mpr (by omega))]
    omega
  · omega

/-- and less than that from the front. -/
theorem sourceIndex_lt (hi : i < target) (hsource : 0 < source) : sourceIndex source target i < source := by
  have htarget : (0 : Int) < target := by omega
  rw [sourceIndex, Int.fdiv_eq_ediv_of_nonneg _ (Int.le_of_lt htarget), Int.ediv_lt_iff_lt_mul htarget,
    ← Int.natCast_mul]
  exact (abs_wrap_mul_le hi hsource).2

/-- The places of a picture that show a row. -/
def placesOf (source target row : Nat) : Finset Nat :=
  (Finset.range target).filter fun i => sourceIndex source target i = row

/-- The number of places that show a row is the difference of two rounded proportions. -/
theorem card_placesOf (hcount : InWords source target) (hrow : row < source) :
    (placesOf source target row).card = (row + 1) * target ⌈/⌉ source - row * target ⌈/⌉ source := by
  have hsource : 0 < source := Nat.zero_lt_of_lt hrow
  rcases Nat.eq_zero_or_pos target with rfl | htarget
  · simp [placesOf]
  have hend : (row + 1) * target ⌈/⌉ source ≤ target := by
    rw [ceilDiv_le_iff_le_mul hsource]
    exact Nat.mul_le_mul_right target hrow
  have hplaces : placesOf source target row
      = Finset.Ico (row * target ⌈/⌉ source) ((row + 1) * target ⌈/⌉ source) := by
    ext i
    rw [placesOf, Finset.mem_filter, Finset.mem_range, Finset.mem_Ico, ← proportion_eq_iff hsource htarget]
    constructor
    · rintro ⟨hi, hindex⟩
      rw [sourceIndex_eq_proportion (hcount.mul_lt hi)] at hindex
      exact Int.ofNat_inj.mp hindex
    · intro hindex
      have hi := Nat.lt_of_lt_of_le ((proportion_eq_iff hsource htarget).mp hindex).2 hend
      rw [sourceIndex_eq_proportion (hcount.mul_lt hi), hindex]
      exact ⟨hi, rfl⟩
  rw [hplaces, Nat.card_Ico]

/-- No row has fewer places than its share, rounded down. -/
theorem div_le_card_placesOf (hcount : InWords source target) (hrow : row < source) :
    target / source ≤ (placesOf source target row).card := by
  have hsource : 0 < source := Nat.zero_lt_of_lt hrow
  have hshare : source * (target / source) ≤ target := Nat.mul_div_le target source
  have hend : row * target + target ≤ source * ((row + 1) * target ⌈/⌉ source) := by
    rw [← Nat.succ_mul]
    exact (ceilDiv_le_iff_le_mul hsource).mp (Nat.le_refl _)
  have hstart : row * target ⌈/⌉ source ≤ (row + 1) * target ⌈/⌉ source - target / source := by
    rw [ceilDiv_le_iff_le_mul hsource, Nat.mul_sub]
    omega
  have hroom : target / source ≤ (row + 1) * target ⌈/⌉ source :=
    Nat.le_of_mul_le_mul_left (by omega) hsource
  rw [card_placesOf hcount hrow]
  omega

/-- No row has more places than its share, rounded up. -/
theorem card_placesOf_le (hcount : InWords source target) (hrow : row < source) :
    (placesOf source target row).card ≤ target ⌈/⌉ source := by
  have hsource : 0 < source := Nat.zero_lt_of_lt hrow
  have hshare := (ceilDiv_le_iff_le_mul hsource).mp (Nat.le_refl (target ⌈/⌉ source))
  have hstart := (ceilDiv_le_iff_le_mul hsource).mp (Nat.le_refl (row * target ⌈/⌉ source))
  have hend : (row + 1) * target ⌈/⌉ source ≤ row * target ⌈/⌉ source + target ⌈/⌉ source := by
    rw [ceilDiv_le_iff_le_mul hsource, Nat.mul_add, Nat.succ_mul]
    exact Nat.add_le_add hstart hshare
  rw [card_placesOf hcount hrow]
  omega

theorem ceilDiv_le_succ_div (hsource : 0 < source) : target ⌈/⌉ source ≤ target / source + 1 := by
  rw [ceilDiv_le_iff_le_mul hsource]
  exact Nat.le_of_lt (Nat.lt_mul_div_succ target hsource)

end

/-! ## Scaling in proportion -/

/-- A source of so many rows or columns is scaled to a target of so many: every place shows the one in proportion,
which is there, they come in order, and all of them come equally often, up to one place. -/
structure Balanced (source target : Nat) : Prop where
  eq : ∀ i < target, sourceIndex source target i = proportion source target i
  nonneg : ∀ i < target, 0 ≤ sourceIndex source target i
  lt : ∀ i < target, sourceIndex source target i < source
  mono : ∀ i j, i ≤ j → j < target → sourceIndex source target i ≤ sourceIndex source target j
  often : ∀ row < source, (placesOf source target row).card = target / source
    ∨ (placesOf source target row).card = target ⌈/⌉ source
  shown : source ≤ target → ∀ row < source, ∃ i < target, sourceIndex source target i = row

/-- As long as words count the places, rows and columns are scaled in order and in proportion. -/
theorem InWords.balanced {source target : Nat} (hcount : InWords source target) (hsource : 1 ≤ source) :
    Balanced source target where
  eq i hi := sourceIndex_eq_proportion (hcount.mul_lt hi)
  nonneg i hi := by
    rw [sourceIndex_eq_proportion (hcount.mul_lt hi)]
    exact Int.natCast_nonneg _
  lt i hi := sourceIndex_lt hi hsource
  mono i j hij hj := by
    rw [sourceIndex_eq_proportion (hcount.mul_lt hj),
      sourceIndex_eq_proportion (hcount.mul_lt (Nat.lt_of_le_of_lt hij hj))]
    exact Int.ofNat_le.mpr (Nat.div_le_div_right (Nat.mul_le_mul_right source hij))
  often row hrow := by
    have hleast : target / source ≤ (placesOf source target row).card := div_le_card_placesOf hcount hrow
    have hmost : (placesOf source target row).card ≤ target ⌈/⌉ source := card_placesOf_le hcount hrow
    have hshare : target ⌈/⌉ source ≤ target / source + 1 := ceilDiv_le_succ_div hsource
    omega
  shown hle row hrow := by
    have hone : 0 < target / source := Nat.div_pos hle hsource
    have hcard := Nat.lt_of_lt_of_le hone (div_le_card_placesOf hcount hrow)
    obtain ⟨i, hi⟩ := Finset.card_pos.mp hcard
    rw [placesOf, Finset.mem_filter, Finset.mem_range] at hi
    exact ⟨i, hi⟩

section

variable {image : Beat.Raster} {sourceWidth sourceHeight width height : Nat}

end

end ProgramArt
