import Mathlib

/-!
# A range cut into cells

A range of numbers is cut into cells of one width, each taking in its lower edge and
not its upper.  A number is given the cell it falls in, and a cell the number in its
middle.  The upper end of the range falls in a cell past the last.
-/

namespace Grid

/-- A range of numbers, wider than a point. -/
structure Range (K : Type*) [LT K] where
  start : K
  stop : K
  wide : start < stop

namespace Range

variable {K : Type*} [Field K] [LinearOrder K]

/-- The lower edge of a cell, and the upper edge of the one before it. -/
def edge (range : Range K) (count cell : ℕ) : K :=
  range.start + (range.stop - range.start) * (cell / count)

/-- The middle of a cell. -/
def middle (range : Range K) (count cell : ℕ) : K :=
  (range.edge count cell + range.edge count (cell + 1)) / 2

variable [IsStrictOrderedRing K]

section Edges

variable (range : Range K) {count : ℕ} (cell : ℕ)

theorem edge_zero : range.edge count 0 = range.start := by
  simp [edge]

theorem edge_count (cut : count ≠ 0) : range.edge count count = range.stop := by
  have divides : (count : K) / count = 1 := div_self (Nat.cast_ne_zero.mpr cut)
  rw [edge, divides, mul_one, add_sub_cancel]

theorem edge_strictMono (cut : count ≠ 0) : StrictMono (range.edge count) := by
  intro lower upper below
  have wide := sub_pos.mpr range.wide
  have positive : (0 : K) < count := Nat.cast_pos.mpr (Nat.pos_of_ne_zero cut)
  have less : (lower : K) / count < upper / count :=
    div_lt_div_of_pos_right (Nat.cast_lt.mpr below) positive
  exact add_lt_add_right (mul_lt_mul_of_pos_left less wide) _

/-- All cells are of one width. -/
theorem edge_succ : range.edge count (cell + 1) =
    range.edge count cell + (range.stop - range.start) / count := by
  rw [edge, edge, Nat.cast_add, Nat.cast_one]
  ring

theorem edge_lt_middle (cut : count ≠ 0) : range.edge count cell < range.middle count cell := by
  have above := range.edge_strictMono cut (Nat.lt_succ_self cell)
  rw [middle]
  linarith

theorem middle_lt_edge (cut : count ≠ 0) :
    range.middle count cell < range.edge count (cell + 1) := by
  have above := range.edge_strictMono cut (Nat.lt_succ_self cell)
  rw [middle]
  linarith

theorem start_le_middle (cut : count ≠ 0) : range.start ≤ range.middle count cell := by
  have above := (range.edge_strictMono cut).monotone (Nat.zero_le cell)
  rw [edge_zero] at above
  exact above.trans (range.edge_lt_middle cell cut).le

/-- The middle of a cell lies in the range just when the cell is not past the last. -/
theorem middle_le_stop_iff (cut : count ≠ 0) :
    range.middle count cell ≤ range.stop ↔ cell < count := by
  rw [← range.edge_count cut]
  constructor
  · intro within
    exact (range.edge_strictMono cut).lt_iff_lt.mp
      ((range.edge_lt_middle cell cut).trans_le within)
  · intro below
    exact (range.middle_lt_edge cell cut).le.trans
      ((range.edge_strictMono cut).monotone below)

end Edges

section Cells

variable [FloorSemiring K] (range : Range K) {count : ℕ} {number : K}

/-- The cell a number falls in. -/
def cell (count : ℕ) (number : K) : ℕ :=
  ⌊(number - range.start) / (range.stop - range.start) * count⌋₊

/-- A number falls in a cell just when it lies between its edges. -/
theorem cell_eq_iff (cut : count ≠ 0) (within : range.start ≤ number) (cell : ℕ) :
    range.cell count number = cell ↔
      range.edge count cell ≤ number ∧ number < range.edge count (cell + 1) := by
  have wide := sub_pos.mpr range.wide
  have positive : (0 : K) < count := Nat.cast_pos.mpr (Nat.pos_of_ne_zero cut)
  have along : 0 ≤ (number - range.start) / (range.stop - range.start) * count :=
    mul_nonneg (div_nonneg (sub_nonneg.mpr within) wide.le) positive.le
  have edge_le (place : ℕ) : range.edge count place ≤ number ↔
      (place : K) ≤ (number - range.start) / (range.stop - range.start) * count := by
    rw [edge, ← le_sub_iff_add_le', mul_comm, ← le_div_iff₀ wide, div_le_iff₀ positive]
  have lt_edge (place : ℕ) : number < range.edge count place ↔
      (number - range.start) / (range.stop - range.start) * count < place := by
    rw [← not_le, edge_le, not_le]
  rw [Range.cell, Nat.floor_eq_iff along, edge_le, lt_edge, Nat.cast_add, Nat.cast_one]

theorem edge_cell_le (cut : count ≠ 0) (within : range.start ≤ number) :
    range.edge count (range.cell count number) ≤ number :=
  ((range.cell_eq_iff cut within _).mp rfl).1

theorem lt_edge_cell_succ (cut : count ≠ 0) (within : range.start ≤ number) :
    number < range.edge count (range.cell count number + 1) :=
  ((range.cell_eq_iff cut within _).mp rfl).2

theorem cell_middle (cut : count ≠ 0) (cell : ℕ) :
    range.cell count (range.middle count cell) = cell :=
  (range.cell_eq_iff cut (range.start_le_middle cell cut) cell).mpr
    ⟨(range.edge_lt_middle cell cut).le, range.middle_lt_edge cell cut⟩

/-- Only what lies below the upper end falls in one of the cells. -/
theorem cell_lt_iff (cut : count ≠ 0) (within : range.start ≤ number) :
    range.cell count number < count ↔ number < range.stop := by
  have increasing := range.edge_strictMono cut
  rw [← range.edge_count cut]
  constructor
  · intro below
    exact (range.lt_edge_cell_succ cut within).trans_le (increasing.monotone below)
  · intro below
    exact increasing.lt_iff_lt.mp ((range.edge_cell_le cut within).trans_lt below)

/-- The upper end falls in the cell past the last. -/
theorem cell_stop (cut : count ≠ 0) : range.cell count range.stop = count := by
  refine (range.cell_eq_iff cut range.wide.le count).mpr ⟨(range.edge_count cut).le, ?_⟩
  have above := range.edge_strictMono cut (Nat.lt_succ_self count)
  rwa [range.edge_count cut] at above

theorem cell_mono (count : ℕ) : Monotone (range.cell count) := by
  intro lower upper below
  have wide := sub_pos.mpr range.wide
  refine Nat.floor_le_floor (mul_le_mul_of_nonneg_right ?_ (Nat.cast_nonneg count))
  exact div_le_div_of_nonneg_right (sub_le_sub_right below _) wide.le

/-- A number lies at most half a cell from the middle of its own. -/
theorem abs_sub_middle_le (cut : count ≠ 0) (within : range.start ≤ number) :
    |number - range.middle count (range.cell count number)| ≤
      (range.stop - range.start) / count / 2 := by
  have below := range.edge_cell_le cut within
  have above := range.lt_edge_cell_succ cut within
  have width : range.edge count (range.cell count number + 1) = _ := range.edge_succ _
  rw [middle, abs_le]
  constructor <;> linarith

end Cells

end Range

end Grid
