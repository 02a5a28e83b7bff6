import ProgramArt.Picture.Basic
import ProgramArt.Proofs.Outcome

/-!
# Pictures pixel by pixel

A picture of a given size is its pixels (`ofPixels`), and what is drawn over it is known as soon as every pixel is:
the colours that were there before do not show, if each new colour is drawn over all parts of the old one
(`redraw_eq_ofPixels`).
-/

namespace ProgramArt

variable {α ε : Type}

/-! ## Rows of one length -/

/-- There are `height` rows of `width` members each. -/
structure Sized (rows : List (List α)) (width height : Nat) : Prop where
  height : rows.length = height
  width : ∀ row ∈ rows, row.length = width

/-- What stands in column `x` of row `y`. -/
def pixelAt? (rows : List (List α)) (x y : Nat) : Option α :=
  rows[y]?.bind (·[x]?)

/-- The rows of the given size whose entries are given by column and row. -/
def ofPixels (pixel : (x y : Nat) → α) (width height : Nat) : List (List α) :=
  (List.range height).map fun y => (List.range width).map fun x => pixel x y

section

variable {rows : List (List α)} {pixel pixel' : Nat → Nat → α} {width height x y : Nat}

theorem sized_ofPixels (pixel : Nat → Nat → α) (width height : Nat) :
    Sized (ofPixels pixel width height) width height := by
  refine ⟨by rw [ofPixels, List.length_map, List.length_range], ?_⟩
  intro row hrow
  obtain ⟨y, _, rfl⟩ := List.mem_map.mp hrow
  rw [List.length_map, List.length_range]

theorem pixelAt?_ofPixels (hx : x < width) (hy : y < height) :
    pixelAt? (ofPixels pixel width height) x y = some (pixel x y) := by
  rw [pixelAt?, ofPixels, List.getElem?_map, List.getElem?_range hy, Option.map_some, Option.bind_some,
    List.getElem?_map, List.getElem?_range hx, Option.map_some]

/-- Outside of the rows nothing stands. -/
theorem Sized.lt_of_pixelAt? (h : Sized rows width height) (hpixel : pixelAt? rows x y ≠ none) :
    x < width ∧ y < height := by
  unfold pixelAt? at hpixel
  cases hrow : rows[y]? with
  | none =>
    rw [hrow] at hpixel
    exact absurd rfl hpixel
  | some row =>
    rw [hrow, Option.bind_some] at hpixel
    have hlength := h.width row (List.mem_of_getElem? hrow)
    have hy := (List.getElem?_eq_some_iff.mp hrow).1
    have hx : x < row.length := by
      by_contra hle
      exact hpixel (List.getElem?_eq_none (Nat.le_of_not_lt hle))
    exact ⟨hlength ▸ hx, h.height ▸ hy⟩

/-- Two pictures of one size are the same if their pixels are. -/
theorem ofPixels_eq_iff :
    ofPixels pixel width height = ofPixels pixel' width height
      ↔ ∀ x < width, ∀ y < height, pixel x y = pixel' x y := by
  constructor
  · intro h x hx y hy
    have hpixel : pixelAt? (ofPixels pixel width height) x y = pixelAt? (ofPixels pixel' width height) x y := by rw [h]
    rw [pixelAt?_ofPixels hx hy, pixelAt?_ofPixels hx hy] at hpixel
    exact Option.some.inj hpixel
  · intro h
    refine List.map_congr_left fun y hy => List.map_congr_left fun x hx => ?_
    exact h x (List.mem_range.mp hx) y (List.mem_range.mp hy)

end

/-! ## Drawing over a picture -/

theorem sized_filled (color : Color) (width height : Nat) :
    Sized (Picture.filled color width height) width height := by
  unfold Picture.filled
  split
  · rename_i hzero
    exact ⟨hzero.symm, fun row hrow => absurd hrow List.not_mem_nil⟩
  · refine ⟨List.length_replicate, ?_⟩
    intro row hrow
    rw [List.eq_of_mem_replicate hrow, List.length_replicate]

/-- A step for every member of a list that succeeds with what its place gives. -/
theorem mapM_zipIdx_eq_ok {β : Type} {f : α × Nat → Except ε β} {g : Nat → β} {items : List α}
    (h : ∀ item ∈ items.zipIdx, f item = .ok (g item.2)) :
    items.zipIdx.mapM f = .ok ((List.range items.length).map g) := by
  rw [mapM_eq_ok_iff, List.range_eq_range', ← List.zipIdx_map_snd, List.map_map, List.forall₂_map_right_iff,
    List.forall₂_same]
  exact h

/-- **A picture that is drawn over, pixel by pixel,** if no new colour depends on the old one. -/
theorem redraw_eq_ofPixels {before : Picture} {width height : Nat} (hbefore : Sized before width height)
    {draw : (x y : Nat) → Color → Except ε Color} {color : (x y : Nat) → Color}
    (hdraw : ∀ x < width, ∀ y < height, ∀ old, draw x y old = .ok (color x y)) :
    before.redraw draw = .ok (ofPixels color width height) := by
  have hrow : ∀ item ∈ before.zipIdx, (item.1.zipIdx.mapM fun pixel => draw pixel.2 item.2 pixel.1)
      = .ok ((List.range width).map fun x => color x item.2) := by
    rintro ⟨row, y⟩ hitem
    have hmem := List.mem_zipIdx' hitem
    have hlength : row.length = width := hbefore.width row (hmem.2 ▸ List.getElem_mem _)
    have hy : y < height := hbefore.height ▸ hmem.1
    rw [← hlength]
    refine mapM_zipIdx_eq_ok (g := fun x => color x y) ?_
    rintro ⟨old, x⟩ hpixel
    exact hdraw x (hlength ▸ (List.mem_zipIdx' hpixel).1) y hy old
  rw [Picture.redraw, ← hbefore.height]
  exact mapM_zipIdx_eq_ok (g := fun y => (List.range width).map fun x => color x y) hrow

end ProgramArt
