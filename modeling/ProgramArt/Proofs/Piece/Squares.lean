import Mathlib.Tactic.ByContra
import ProgramArt.Piece.Picture
import ProgramArt.Proofs.Picture.Pixels

/-!
# Squares of a tape

A tape is drawn in squares that are numbered row by row (`squareAt`). How many there are in a row is the width of the
picture divided by the side of a square, rounded down, so a picture may end within a square that is not counted. The
number of such a square is also that of the first square in the next row, and its cell is drawn twice
(`not_differWithin`).

If the sides of the picture are multiples of that of a square, every cell has one square. Then the picture tells the
tape as far as it is visible: the inner pixels of a square tell its cell (`cellColor_inj`), and those of its edge
whether the pointer is there, since no cell has the colour of an outline (`outlineColor_ne_cellColor`).
-/

namespace ProgramArt

/-! ## The picture of a tape -/

/-- The number of the square in which a pixel lies. -/
def squareAt (side width x y : Nat) : Nat :=
  y / side * (width / side) + x / side

/-- The colour of a pixel. -/
def squareColor (state : Tape.State) (instr : Tape.Instr) (side width x y : Nat) : Color :=
  if onEdge side x y = true ∧ (squareAt side width x y : Int) = state.ptr then outlineColor instr
  else cellColor (state.cells.getD (squareAt side width x y) 0)

theorem cellIndex_natCast (side width x y : Nat) : cellIndex side width x y = squareAt side width x y := by
  simp [cellIndex, squareAt, Int.fdiv_eq_ediv_of_nonneg]

theorem onEdge_natCast {side : Nat} (hside : 0 < side) (x y : Nat) :
    onEdge side x y = true ↔ x % side = 0 ∨ y % side = 0 ∨ x % side = side - 1 ∨ y % side = side - 1 := by
  have hmod (n : Nat) : Int.fmod n side = (n % side : Nat) := by
    rw [Int.fmod_eq_emod_of_nonneg _ (Int.natCast_nonneg side), Int.natCast_emod]
  simp only [onEdge, hmod, Bool.or_eq_true, beq_iff_eq]
  omega

/-- A cell is drawn as zero if it is beyond the tape. -/
theorem visibleCell_natCast (cells : Array Int8) (k : Nat) : visibleCell cells k = some (cells.getD k 0) := by
  unfold visibleCell
  rw [Array.getD_eq_getD_getElem?]
  split
  · rename_i hle
    rw [Array.getElem?_eq_none (Int.ofNat_le.mp hle), Option.getD_none]
  · rename_i hle
    have hlt : k < cells.size := by omega
    rw [Index.resolve_natCast hlt, Array.getElem?_eq_getElem hlt]
    rfl

theorem tapePixel_eq (state : Tape.State) (instr : Tape.Instr) (side width x y : Nat) (old : Color) :
    tapePixel state instr side width x y old = .ok (squareColor state instr side width x y) := by
  unfold tapePixel
  dsimp only
  rw [cellIndex_natCast, visibleCell_natCast]
  rfl

section

variable {side width height : Nat}

theorem squareSide_natCast (hside : 0 < side) (hword : (side : Int) ≤ Word64.maxValue) :
    squareSide width height (.int side) = .ok side := by
  have hmin : ¬ ((side : Int) < Word64.minValue ∨ Word64.maxValue < (side : Int)) := by
    have hneg : Word64.minValue ≤ 0 := by decide
    omega
  rw [squareSide, if_neg (by omega), if_neg hmin]

/-- **The picture of a tape**, whatever it is drawn over. -/
theorem paintSquares_eq (hside : 0 < side) (hword : (side : Int) ≤ Word64.maxValue) {before : Picture}
    (hbefore : Sized before width height) (state : Tape.State) (instr : Tape.Instr) :
    paintSquares state instr (.int side) width height before
      = .ok (ofPixels (squareColor state instr side width) width height) := by
  rw [paintSquares, squareSide_natCast hside hword]
  exact redraw_eq_ofPixels hbefore fun x _ y _ old => tapePixel_eq state instr side width x y old

end

/-! ## Colours -/

/-- **Cells have different colours:** the red part can be divided by 63 again. -/
theorem cellColor_inj {a b : Int8} : cellColor a = cellColor b ↔ a = b := by
  constructor
  · intro h
    have hred : a.toUInt8 * 63 = b.toUInt8 * 63 := congrArg Color.red h
    have hdivide (v : UInt8) : v * 63 * 191 = v := by
      rw [UInt8.mul_assoc, show (63 : UInt8) * 191 = 1 by decide, UInt8.mul_one]
    have hbyte : a.toUInt8 = b.toUInt8 := by rw [← hdivide a.toUInt8, hred, hdivide]
    rw [← Int8.toInt8_toUInt8 a, hbyte, Int8.toInt8_toUInt8]
  · intro h
    rw [h]

/-- Red and blue of a cell balance its green. -/
theorem cellColor_balanced (cell : Int8) :
    (cellColor cell).red + (cellColor cell).blue = (cellColor cell).green + (cellColor cell).green := by
  show cell.toUInt8 * 63 + cell.toUInt8 * 67 = cell.toUInt8 * 65 + cell.toUInt8 * 65
  rw [← UInt8.mul_add, ← UInt8.mul_add]
  rfl

/-- **No cell has the colour of an outline,** since outlines do not balance. -/
theorem outlineColor_ne_cellColor (instr : Tape.Instr) (cell : Int8) : outlineColor instr ≠ cellColor cell := by
  intro h
  have hbalanced := cellColor_balanced cell
  rw [← h] at hbalanced
  revert hbalanced
  cases instr <;> decide

/-! ## One cell, one place -/

/-- Two pictures differ at most within a block of the given side, the corner of which is at `left` and `top`. -/
def DifferWithin (side left top : Nat) (p q : Picture) : Prop :=
  ∀ x y, pixelAt? p x y ≠ pixelAt? q x y → (left ≤ x ∧ x < left + side) ∧ top ≤ y ∧ y < top + side

/-- Change the value of one cell. -/
def Tape.State.withCell (state : Tape.State) (k : Nat) (value : Int8) : Tape.State :=
  { state with cells := state.cells.setIfInBounds k value }

section

variable {state : Tape.State} {instr : Tape.Instr} {side width height k x y : Nat} {value : Int8}

theorem squareColor_withCell_of_ne (h : squareAt side width x y ≠ k) :
    squareColor (state.withCell k value) instr side width x y = squareColor state instr side width x y := by
  have hcell : (state.withCell k value).cells.getD (squareAt side width x y) 0
      = state.cells.getD (squareAt side width x y) 0 := by
    rw [Tape.State.withCell, Array.getD_eq_getD_getElem?, Array.getD_eq_getD_getElem?,
      Array.getElem?_setIfInBounds_ne (Ne.symm h)]
  rw [squareColor, squareColor, hcell]
  rfl

/-- Where the picture changes with a cell, its square is drawn. -/
theorem squareAt_of_pixelAt?_ne
    (h : pixelAt? (ofPixels (squareColor state instr side width) width height) x y
      ≠ pixelAt? (ofPixels (squareColor (state.withCell k value) instr side width) width height) x y) :
    (x < width ∧ y < height) ∧ squareAt side width x y = k := by
  have hin : x < width ∧ y < height := by
    by_cases hfirst : pixelAt? (ofPixels (squareColor state instr side width) width height) x y = none
    · rw [hfirst] at h
      exact (sized_ofPixels _ width height).lt_of_pixelAt? (Ne.symm h)
    · exact (sized_ofPixels _ width height).lt_of_pixelAt? hfirst
  refine ⟨hin, ?_⟩
  by_contra hne
  rw [pixelAt?_ofPixels hin.1 hin.2, pixelAt?_ofPixels hin.1 hin.2, squareColor_withCell_of_ne hne] at h
  exact h rfl

/-- A pixel lies in the block of its square. -/
theorem mem_block (hside : 0 < side) (n : Nat) : n / side * side ≤ n ∧ n < n / side * side + side := by
  have hdiv := Nat.div_add_mod n side
  have hmod := Nat.mod_lt n hside
  rw [Nat.mul_comm] at hdiv
  omega

/-- In a row of whole squares the number of a square tells its column and its row. -/
theorem squareAt_mul {columns : Nat} (hside : 0 < side) (hx : x < side * columns) (y : Nat) :
    squareAt side (side * columns) x y % columns = x / side
      ∧ squareAt side (side * columns) x y / columns = y / side := by
  have hlt : x / side < columns := Nat.div_lt_of_lt_mul hx
  rw [squareAt, Nat.mul_div_cancel_left _ hside, Nat.mul_comm]
  constructor
  · rw [Nat.mul_add_mod, Nat.mod_eq_of_lt hlt]
  · rw [Nat.mul_add_div (Nat.zero_lt_of_lt hlt), Nat.div_eq_of_lt hlt, Nat.add_zero]

theorem differWithin_of_dvd (hside : 0 < side) (hdvd : side ∣ width) (state : Tape.State) (instr : Tape.Instr)
    (k : Nat) (value : Int8) :
    DifferWithin side (k % (width / side) * side) (k / (width / side) * side)
      (ofPixels (squareColor state instr side width) width height)
      (ofPixels (squareColor (state.withCell k value) instr side width) width height) := by
  obtain ⟨columns, rfl⟩ := hdvd
  intro x y h
  obtain ⟨⟨hx, _⟩, hat⟩ := squareAt_of_pixelAt?_ne h
  obtain ⟨hcolumn, hrow⟩ := squareAt_mul hside hx y
  rw [Nat.mul_div_cancel_left _ hside, ← hat, hcolumn, hrow]
  exact ⟨mem_block hside x, mem_block hside y⟩

/-- In a picture of a single row of squares their numbers are their columns. -/
theorem differWithin_of_le (hside : 0 < side) (hle : height ≤ side) (state : Tape.State) (instr : Tape.Instr)
    (k : Nat) (value : Int8) :
    DifferWithin side (k * side) 0 (ofPixels (squareColor state instr side width) width height)
      (ofPixels (squareColor (state.withCell k value) instr side width) width height) := by
  intro x y h
  obtain ⟨⟨_, hy⟩, hat⟩ := squareAt_of_pixelAt?_ne h
  have hcolumn : x / side = k := by
    rw [squareAt, Nat.div_eq_of_lt (Nat.lt_of_lt_of_le hy hle), Nat.zero_mul, Nat.zero_add] at hat
    exact hat
  rw [← hcolumn]
  exact ⟨mem_block hside x, Nat.zero_le y, by omega⟩

end

theorem getD_replicate_zero (count k : Nat) : (Array.replicate count (0 : Int8)).getD k 0 = 0 := by
  rw [Array.getD_eq_getD_getElem?, Array.getElem?_replicate]
  split <;> rfl

/-- A square that does not show the pointer changes with its cell. -/
theorem pixelAt?_ne_of_squareAt {state : Tape.State} {instr : Tape.Instr} {side width height k x y : Nat} {value : Int8}
    (hx : x < width) (hy : y < height) (hat : squareAt side width x y = k) (hk : k < state.cells.size)
    (hptr : state.ptr ≠ k) (hvalue : state.cells.getD k 0 ≠ value) :
    pixelAt? (ofPixels (squareColor state instr side width) width height) x y
      ≠ pixelAt? (ofPixels (squareColor (state.withCell k value) instr side width) width height) x y := by
  have hedge (state : Tape.State) (hptr : state.ptr ≠ k) :
      squareColor state instr side width x y = cellColor (state.cells.getD k 0) := by
    rw [squareColor, hat, if_neg fun h => hptr h.2.symm]
  have hnew : (state.withCell k value).cells.getD k 0 = value := by
    rw [Tape.State.withCell, Array.getD_eq_getD_getElem?, Array.getElem?_setIfInBounds_self_of_lt hk,
      Option.getD_some]
  rw [pixelAt?_ofPixels hx hy, pixelAt?_ofPixels hx hy, hedge state hptr, hedge (state.withCell k value) hptr, hnew]
  intro h
  exact hvalue (cellColor_inj.mp (Option.some.inj h))

/-- If the last square of a row is cut off, its cell is also that of the first square in the next row. -/
theorem not_differWithin {state : Tape.State} {side width height : Nat} {value : Int8} (hside : 0 < side)
    (hcut : ¬ side ∣ width) (hlt : side < height) (hk : width / side < state.cells.size)
    (hptr : state.ptr ≠ (width / side : Nat)) (hvalue : state.cells.getD (width / side) 0 ≠ value)
    (instr : Tape.Instr) (left top : Nat) :
    ¬ DifferWithin side left top (ofPixels (squareColor state instr side width) width height)
      (ofPixels (squareColor (state.withCell (width / side) value) instr side width) width height) := by
  intro h
  have hlast : width / side * side < width := by
    refine Nat.lt_of_le_of_ne (Nat.div_mul_le_self width side) fun heq => hcut ?_
    exact ⟨width / side, by rw [Nat.mul_comm, heq]⟩
  have hcutoff : squareAt side width (width / side * side) 0 = width / side := by
    rw [squareAt, Nat.zero_div, Nat.zero_mul, Nat.zero_add, Nat.mul_div_cancel _ hside]
  have hnext : squareAt side width 0 side = width / side := by
    rw [squareAt, Nat.div_self hside, Nat.one_mul, Nat.zero_div, Nat.add_zero]
  obtain ⟨_, htop, _⟩ := h _ _ (pixelAt?_ne_of_squareAt hlast (Nat.zero_lt_of_lt hlt) hcutoff hk hptr hvalue)
  obtain ⟨_, _, hbottom⟩ := h _ _ (pixelAt?_ne_of_squareAt (Nat.zero_lt_of_lt hlast) hlt hnext hk hptr hvalue)
  omega

/-- **A cell is drawn in one place only,** whatever the tape is, if and only if the rows consist of whole squares, or
there is a single row of squares. -/
theorem cell_in_one_block_iff {side width height : Nat} (hside : 1 ≤ side)
    (hword : (side : Int) ≤ Word64.maxValue) :
    (∀ (state : Tape.State) (instr : Tape.Instr) (k : Nat) (value : Int8) (before : Picture),
      Sized before width height → ∃ p q left top,
        paintSquares state instr (.int side) width height before = .ok p
        ∧ paintSquares (state.withCell k value) instr (.int side) width height before = .ok q
        ∧ DifferWithin side left top p q)
    ↔ side ∣ width ∨ height ≤ side := by
  constructor
  · intro h
    by_contra hnot
    obtain ⟨hcut, hlt⟩ := not_or.mp hnot
    -- a tape of zeros that has the cell of the square that is cut off, with the pointer out of sight
    let state : Tape.State := { ptr := -1, cells := Array.replicate (width / side + 1) 0, policy := .default }
    obtain ⟨p, q, left, top, hp, hq, hwithin⟩ :=
      h state .inc (width / side) 1 (.filled ⟨0, 0, 0⟩ width height) (sized_filled _ _ _)
    rw [paintSquares_eq hside hword (sized_filled _ _ _)] at hp hq
    cases hp
    cases hq
    have hcell : state.cells.getD (width / side) 0 ≠ 1 := by
      rw [getD_replicate_zero]
      decide
    have hptr : state.ptr ≠ (width / side : Nat) := by
      intro heq
      have hnonneg := Int.natCast_nonneg (width / side)
      rw [← heq] at hnonneg
      exact absurd hnonneg (show ¬ (0 : Int) ≤ -1 by decide)
    refine not_differWithin hside hcut (Nat.lt_of_not_le hlt) ?_ hptr hcell .inc left top hwithin
    rw [Array.size_replicate]
    exact Nat.lt_succ_self _
  · intro h state instr k value before hbefore
    have hpaint := paintSquares_eq hside hword hbefore
    rcases h with hdvd | hle
    · exact ⟨_, _, _, _, hpaint state instr, hpaint (state.withCell k value) instr,
        differWithin_of_dvd hside hdvd state instr k value⟩
    · exact ⟨_, _, _, _, hpaint state instr, hpaint (state.withCell k value) instr,
        differWithin_of_le hside hle state instr k value⟩

/-- With squares of side 2 a cell changes a picture of 4 by 4 pixels in one block. -/
theorem cell_in_one_block_iff_even :
    1 ≤ 2 ∧ ((2 : Nat) : Int) ≤ Word64.maxValue ∧ 2 ∣ 4 ∧ ∃ p q left top,
      paintSquares (.blank .default) .inc (.int 2) 4 4 (.filled ⟨9, 9, 9⟩ 4 4) = .ok p
      ∧ paintSquares ((Tape.State.blank .default).withCell 1 1) .inc (.int 2) 4 4 (.filled ⟨9, 9, 9⟩ 4 4) = .ok q
      ∧ DifferWithin 2 left top p q :=
  ⟨by decide, by decide, by decide, (cell_in_one_block_iff (by decide) (by decide)).mpr (.inl (by decide))
    (.blank .default) .inc 1 1 (.filled ⟨9, 9, 9⟩ 4 4) (sized_filled _ 4 4)⟩

/-- In a picture of 3 by 4 pixels it changes two places that no block covers. -/
theorem cell_drawn_twice :
    ∃ p q, paintSquares (.blank .default) .inc (.int 2) 3 4 (.filled ⟨0, 0, 0⟩ 3 4) = .ok p
      ∧ paintSquares ((Tape.State.blank .default).withCell 1 1) .inc (.int 2) 3 4 (.filled ⟨0, 0, 0⟩ 3 4) = .ok q
      ∧ ∀ left top, ¬ DifferWithin 2 left top p q := by
  have hsize : 3 / 2 < (Tape.State.blank .default).cells.size := by
    rw [Tape.State.blank, Array.size_replicate]
    decide
  have hcell : (Tape.State.blank .default).cells.getD (3 / 2) 0 ≠ 1 := by
    rw [Tape.State.blank]
    exact (getD_replicate_zero _ _).trans_ne (by decide)
  have hpaint (state : Tape.State) : paintSquares state .inc (.int 2) 3 4 (.filled ⟨0, 0, 0⟩ 3 4)
      = .ok (ofPixels (squareColor state .inc 2 3) 3 4) :=
    paintSquares_eq (by decide) (by decide) (sized_filled _ 3 4) state .inc
  refine ⟨_, _, hpaint _, hpaint _, ?_⟩
  exact not_differWithin (by decide) (by decide) (by decide) hsize (by decide) hcell .inc

/-! ## What a picture tells -/

/-- The pointer is at one of the first `count` cells. -/
def Tape.State.PtrBelow (state : Tape.State) (count : Nat) : Prop :=
  0 ≤ state.ptr ∧ state.ptr < count

section

variable {side columns rows : Nat}

theorem squareAt_lt {x y : Nat} (hside : 0 < side) (hx : x < side * columns) (hy : y < side * rows) :
    squareAt side (side * columns) x y < columns * rows := by
  have hcolumn : x / side < columns := Nat.div_lt_of_lt_mul hx
  have hrow : y / side < rows := Nat.div_lt_of_lt_mul hy
  rw [squareAt, Nat.mul_div_cancel_left _ hside]
  calc y / side * columns + x / side < (y / side + 1) * columns := by
        rw [Nat.succ_mul]
        exact Nat.add_lt_add_left hcolumn _
    _ ≤ rows * columns := Nat.mul_le_mul_right _ hrow
    _ = columns * rows := Nat.mul_comm _ _

/-- Every square that is counted is in the picture, with all of its pixels. -/
theorem exists_pixel {k dx dy : Nat} (hk : k < columns * rows) (hdx : dx < side) (hdy : dy < side) :
    ∃ x < side * columns, ∃ y < side * rows,
      squareAt side (side * columns) x y = k ∧ x % side = dx ∧ y % side = dy := by
  have hside : 0 < side := Nat.zero_lt_of_lt hdx
  have hcolumns : 0 < columns := Nat.pos_of_mul_pos_right (Nat.zero_lt_of_lt hk)
  have hdiv {n d : Nat} (hd : d < side) : (side * n + d) / side = n := by
    rw [Nat.mul_add_div hside, Nat.div_eq_of_lt hd, Nat.add_zero]
  have hmod {n d : Nat} (hd : d < side) : (side * n + d) % side = d := by
    rw [Nat.mul_add_mod, Nat.mod_eq_of_lt hd]
  have hlt {n d bound : Nat} (hd : d < side) (hn : n < bound) : side * n + d < side * bound :=
    calc side * n + d < side * (n + 1) := by
          rw [Nat.mul_succ]
          exact Nat.add_lt_add_left hd _
      _ ≤ side * bound := Nat.mul_le_mul_left _ hn
  refine ⟨side * (k % columns) + dx, hlt hdx (Nat.mod_lt k hcolumns), side * (k / columns) + dy,
    hlt hdy (Nat.div_lt_of_lt_mul hk), ?_, hmod hdx, hmod hdy⟩
  rw [squareAt, hdiv hdx, hdiv hdy, Nat.mul_div_cancel_left _ hside, Nat.mul_comm]
  exact Nat.div_add_mod k columns

variable {a b : Tape.State} {i j : Tape.Instr}

/-- An inner pixel shows the cell. -/
theorem squareColor_inner {state : Tape.State} {instr : Tape.Instr} {width x y : Nat} (hside : 3 ≤ side)
    (hx : x % side = 1) (hy : y % side = 1) :
    squareColor state instr side width x y = cellColor (state.cells.getD (squareAt side width x y) 0) := by
  have hinner : ¬ onEdge side x y = true := by
    rw [onEdge_natCast (by omega), hx, hy]
    omega
  rw [squareColor, if_neg fun h => hinner h.1]

/-- A corner shows the pointer, if it is there. -/
theorem squareColor_corner {state : Tape.State} {instr : Tape.Instr} {width x y : Nat} (hside : 3 ≤ side)
    (hx : x % side = 0) :
    squareColor state instr side width x y
      = if (squareAt side width x y : Int) = state.ptr then outlineColor instr
        else cellColor (state.cells.getD (squareAt side width x y) 0) := by
  have hedge : onEdge side x y = true := (onEdge_natCast (by omega) x y).mpr (.inl hx)
  simp only [squareColor, hedge, true_and]

/-- A pointer that one of two pictures shows is shown by the other, with the same outline. -/
theorem ptr_of_squareColor_eq (hside : 3 ≤ side)
    (h : ∀ x < side * columns, ∀ y < side * rows,
      squareColor a i side (side * columns) x y = squareColor b j side (side * columns) x y)
    (hvisible : a.PtrBelow (columns * rows)) : a.ptr = b.ptr ∧ outlineColor i = outlineColor j := by
  obtain ⟨k, hk⟩ := Int.eq_ofNat_of_zero_le hvisible.1
  have hlt : k < columns * rows := by
    have hbelow := hvisible.2
    rw [hk] at hbelow
    exact Int.ofNat_lt.mp hbelow
  obtain ⟨x, hx, y, hy, hat, hdx, _⟩ := exists_pixel hlt (show 0 < side by omega) (show 0 < side by omega)
  have hcorner := h x hx y hy
  rw [squareColor_corner hside hdx, squareColor_corner hside hdx, hat, if_pos hk.symm] at hcorner
  split at hcorner
  · rename_i hptr
    exact ⟨hk.trans hptr, hcorner⟩
  · exact absurd hcorner (outlineColor_ne_cellColor i _)

/-- **What the squares tell of a tape.** -/
theorem ofPixels_squareColor_eq_iff (hside : 3 ≤ side) :
    ofPixels (squareColor a i side (side * columns)) (side * columns) (side * rows)
        = ofPixels (squareColor b j side (side * columns)) (side * columns) (side * rows)
      ↔ (∀ k < columns * rows, a.cells.getD k 0 = b.cells.getD k 0)
        ∧ (¬ a.PtrBelow (columns * rows) ∧ ¬ b.PtrBelow (columns * rows) ∨ a.ptr = b.ptr)
        ∧ (a.PtrBelow (columns * rows) → outlineColor i = outlineColor j) := by
  rw [ofPixels_eq_iff]
  constructor
  · intro h
    refine ⟨?_, ?_, fun hvisible => (ptr_of_squareColor_eq hside h hvisible).2⟩
    · intro k hk
      obtain ⟨x, hx, y, hy, hat, hdx, hdy⟩ := exists_pixel hk (show 1 < side by omega) (show 1 < side by omega)
      have hinner := h x hx y hy
      rw [squareColor_inner hside hdx hdy, squareColor_inner hside hdx hdy, hat] at hinner
      exact cellColor_inj.mp hinner
    · by_cases ha : a.PtrBelow (columns * rows)
      · exact .inr (ptr_of_squareColor_eq hside h ha).1
      · by_cases hb : b.PtrBelow (columns * rows)
        · exact .inr (ptr_of_squareColor_eq hside (fun x hx y hy => (h x hx y hy).symm) hb).1.symm
        · exact .inl ⟨ha, hb⟩
  · rintro ⟨hcells, hptr, houtline⟩ x hx y hy
    have hlt := squareAt_lt (show 0 < side by omega) hx hy
    -- a pointer at this square is visible
    have hvisible {state : Tape.State} (h : (squareAt side (side * columns) x y : Int) = state.ptr) :
        state.PtrBelow (columns * rows) := by
      refine ⟨?_, ?_⟩ <;> rw [← h]
      · exact Int.natCast_nonneg _
      · exact Int.ofNat_lt.mpr hlt
    have hhere : (squareAt side (side * columns) x y : Int) = a.ptr
        ↔ (squareAt side (side * columns) x y : Int) = b.ptr := by
      rcases hptr with ⟨ha, hb⟩ | heq
      · exact ⟨fun h => absurd (hvisible h) ha, fun h => absurd (hvisible h) hb⟩
      · rw [heq]
    rw [squareColor, squareColor, hcells _ hlt]
    by_cases ha : onEdge side x y = true ∧ (squareAt side (side * columns) x y : Int) = a.ptr
    · rw [if_pos ha, if_pos ⟨ha.1, hhere.mp ha.2⟩, houtline (hvisible ha.2)]
    · rw [if_neg ha, if_neg fun hb => ha ⟨hb.1, hhere.mpr hb.2⟩]

end

/-! ## Pieces -/

namespace TapePiece

/-- The outline tells an instruction unless the program pointer is too far in front of the program. -/
theorem exists_outlined_iff (piece : TapePiece) :
    (∃ instr, piece.outlined = .ok instr) ↔ -(piece.program.size : Int) ≤ piece.state.pc := by
  unfold TapePiece.outlined
  by_cases hhalted : piece.state.halted piece.program = true
  · rw [if_pos hhalted]
    have hle := of_decide_eq_true hhalted
    exact ⟨fun _ => by omega, fun _ => ⟨_, rfl⟩⟩
  · rw [if_neg hhalted]
    have hlt : piece.state.pc < piece.program.size := by
      rw [Tape.State.halted, decide_eq_true_eq] at hhalted
      omega
    cases hget : piece.program.get? piece.state.pc with
    | none =>
      rw [Tape.Program.get?, Option.map_eq_none_iff, Index.resolve_eq_none_iff] at hget
      change (piece.program.size : Int) ≤ _ ∨ _ < -(piece.program.size : Int) at hget
      constructor
      · rintro ⟨_, h⟩
        cases h
      · intro h
        omega
    | some instr =>
      refine ⟨fun _ => ?_, fun _ => ⟨_, rfl⟩⟩
      by_contra hnot
      have hnone : Index.resolve piece.program.instrs.size piece.state.pc = none :=
        Index.resolve_eq_none_iff.mpr (.inr (Int.lt_of_not_ge hnot))
      rw [Tape.Program.get?, hnone] at hget
      cases hget

variable {piece : TapePiece} {side width height : Nat} {before : Picture}

/-- The picture of a piece that can be drawn. -/
theorem eq_of_paint (hside : 1 ≤ side) (hsize : piece.pixelSize = .int side) (hbefore : Sized before width height)
    {picture : Picture} (h : piece.paint width height before = .ok picture) :
    (side : Int) ≤ Word64.maxValue ∧ ∃ instr, piece.outlined = .ok instr
      ∧ picture = ofPixels (squareColor piece.state instr side width) width height := by
  unfold TapePiece.paint at h
  cases houtlined : piece.outlined with
  | error e =>
    rw [houtlined] at h
    cases h
  | ok instr =>
    rw [houtlined, hsize] at h
    change paintSquares piece.state instr (.int side) width height before = .ok picture at h
    by_cases hword : (side : Int) ≤ Word64.maxValue
    · rw [paintSquares_eq hside hword hbefore] at h
      exact ⟨hword, instr, rfl, (Except.ok.inj h).symm⟩
    · rw [paintSquares, squareSide, if_neg (by omega), if_pos (.inr (Int.lt_of_not_ge hword))] at h
      cases h

/-- A tape piece can be drawn if its squares have a size that fits a word and there is an instruction to be told. -/
theorem exists_paint_iff (hside : 1 ≤ side) (hsize : piece.pixelSize = .int side)
    (hbefore : Sized before width height) :
    (∃ picture, piece.paint width height before = .ok picture)
      ↔ (side : Int) ≤ Word64.maxValue ∧ -(piece.program.size : Int) ≤ piece.state.pc := by
  rw [← piece.exists_outlined_iff]
  constructor
  · rintro ⟨picture, h⟩
    obtain ⟨hword, instr, houtlined, _⟩ := eq_of_paint hside hsize hbefore h
    exact ⟨hword, instr, houtlined⟩
  · rintro ⟨hword, instr, houtlined⟩
    refine ⟨ofPixels (squareColor piece.state instr side width) width height, ?_⟩
    rw [TapePiece.paint, houtlined, hsize]
    exact paintSquares_eq hside hword hbefore piece.state instr

end TapePiece

/-- **The picture tells the tape, as far as it is visible.** In a picture of whole squares with inner pixels two pieces
look the same, whatever they are drawn over, exactly if their visible cells are the same, where a cell beyond the tape
is zero, and their pointers are at the same cell or out of sight, with the same outline if one is visible. They can be
drawn unless the program pointer is too far in front of the program. -/
theorem TapePiece.paint_eq_iff {side columns rows : Nat} (hside : 3 ≤ side) {a b : TapePiece}
    (ha : a.pixelSize = .int side) (hb : b.pixelSize = .int side) {before before' : Picture}
    (hbefore : Sized before (side * columns) (side * rows))
    (hbefore' : Sized before' (side * columns) (side * rows)) :
    ((∃ p, a.paint (side * columns) (side * rows) before = .ok p)
      ↔ (side : Int) ≤ Word64.maxValue ∧ -(a.program.size : Int) ≤ a.state.pc)
    ∧ ∀ p q, a.paint (side * columns) (side * rows) before = .ok p →
      b.paint (side * columns) (side * rows) before' = .ok q →
      ∃ i j, a.outlined = .ok i ∧ b.outlined = .ok j
        ∧ (p = q ↔ (∀ k < columns * rows, a.state.cells.getD k 0 = b.state.cells.getD k 0)
          ∧ (¬ a.state.PtrBelow (columns * rows) ∧ ¬ b.state.PtrBelow (columns * rows) ∨ a.state.ptr = b.state.ptr)
          ∧ (a.state.PtrBelow (columns * rows) → outlineColor i = outlineColor j)) := by
  have hpos : 1 ≤ side := by omega
  refine ⟨exists_paint_iff hpos ha hbefore, ?_⟩
  intro p q hp hq
  obtain ⟨_, i, hi, rfl⟩ := eq_of_paint hpos ha hbefore hp
  obtain ⟨_, j, hj, rfl⟩ := eq_of_paint hpos hb hbefore' hq
  exact ⟨i, j, hi, hj, ofPixels_squareColor_eq_iff hside⟩

/-- About to execute `+` at the start of a ring. -/
def ringPiece : TapePiece := .start ⟨#[.inc], #[none], rfl⟩ "" (.int 3) .default

/-- The same on a growing tape of three cells, the last of which is not zero. -/
def shortPiece : TapePiece :=
  { ringPiece with state := { cells := #[0, 0, 5], policy := .grow 64 } }

/-- Two squares do not tell a third cell: the picture is the same, over black and over white. -/
theorem TapePiece.paint_eq_iff_hidden :
    3 ≤ 3 ∧ ringPiece.pixelSize = .int (3 : Nat) ∧ shortPiece.pixelSize = .int (3 : Nat)
    ∧ Sized (Picture.filled ⟨0, 0, 0⟩ (3 * 2) (3 * 1)) (3 * 2) (3 * 1)
    ∧ Sized (Picture.filled ⟨255, 255, 255⟩ (3 * 2) (3 * 1)) (3 * 2) (3 * 1)
    ∧ ∃ p, ringPiece.paint (3 * 2) (3 * 1) (.filled ⟨0, 0, 0⟩ (3 * 2) (3 * 1)) = .ok p
      ∧ shortPiece.paint (3 * 2) (3 * 1) (.filled ⟨255, 255, 255⟩ (3 * 2) (3 * 1)) = .ok p := by
  have hblack : Sized (Picture.filled ⟨0, 0, 0⟩ (3 * 2) (3 * 1)) (3 * 2) (3 * 1) := sized_filled _ _ _
  have hwhite : Sized (Picture.filled ⟨255, 255, 255⟩ (3 * 2) (3 * 1)) (3 * 2) (3 * 1) := sized_filled _ _ _
  refine ⟨by decide, rfl, rfl, hblack, hwhite, ?_⟩
  obtain ⟨hring, htells⟩ :=
    paint_eq_iff (show 3 ≤ 3 by decide) (show ringPiece.pixelSize = .int (3 : Nat) from rfl)
      (show shortPiece.pixelSize = .int (3 : Nat) from rfl) hblack hwhite
  obtain ⟨hshort, _⟩ :=
    paint_eq_iff (show 3 ≤ 3 by decide) (show shortPiece.pixelSize = .int (3 : Nat) from rfl)
      (show ringPiece.pixelSize = .int (3 : Nat) from rfl) hwhite hblack
  obtain ⟨p, hp⟩ := hring.mpr ⟨by decide, by decide⟩
  obtain ⟨q, hq⟩ := hshort.mpr ⟨by decide, by decide⟩
  obtain ⟨i, j, hi, hj, hiff⟩ := htells p q hp hq
  have hcells : ∀ k < 2 * 1, ringPiece.state.cells.getD k 0 = shortPiece.state.cells.getD k 0 := by
    intro k hk
    have hshown : ∀ k < 2, (#[0, 0, 5] : Array Int8).getD k 0 = 0 := by decide
    exact (getD_replicate_zero _ k).trans (hshown k hk).symm
  have houtline : outlineColor i = outlineColor j := by
    cases hi
    cases hj
    rfl
  rw [← hiff.mpr ⟨hcells, .inr rfl, fun _ => houtline⟩] at hq
  exact ⟨p, hp, hq⟩

end ProgramArt
