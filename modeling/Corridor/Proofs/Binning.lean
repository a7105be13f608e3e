import Corridor.Proofs.Exact
import Corridor.Proofs.Grid

/-!
# Exact Cells

In exact arithmetic the cells of an axis are the parts that its edges cut out: each of them holds
its lower edge and not its upper one, which the next cell holds, but the last cell holds the end of
the axis. The cell of a coordinate is the one that holds it; what lies before the axis goes to the
first cell and what lies beyond it to the last. An axis of no extent has all coordinates in its
first cell.

## Main results

* `Axis.index_real`: the cell of a coordinate as a floor that is cut off.
* `Axis.IsBinning`, `Axis.isBinning_cut`: what is known of the cell of every coordinate.
* `Axis.mem_cell_iff`: the cell of a coordinate is the one that holds it.
* `Grid.cut_bins`: the rows and columns of all points.
-/

namespace Corridor

attribute [local instance] divReal

namespace Axis

/-- Where a cell of the axis from `low` to `high` starts. -/
noncomputable def edge (low high : ℝ) (n : ℕ) (i : ℤ) : ℝ := low + i * ((high - low) / n)

/-- The coordinates that a cell holds. An axis of no extent has one cell; the last cell of any other
axis is closed. -/
def cell (low high : ℝ) (n i : ℕ) : Set ℝ :=
  {v | low ≤ v ∧ v ≤ high ∧
    if low = high then i = 0
    else edge low high n i ≤ v ∧ (v < edge low high n (i + 1) ∨ i + 1 = n)}

/-- What is known of the cell of every coordinate, on the axis from `low` to `high` that is cut into
`n` cells. -/
structure IsBinning (low high : ℝ) (n : ℕ) (index : ℝ → ℕ) : Prop where
  lt : ∀ v, index v < n
  /-- Before the end of the axis, the cell is the one between whose edges the coordinate lies. -/
  inside : low < high → ∀ v, low ≤ v → v < high → ∀ i : ℤ,
    (index v : ℤ) = i ↔ edge low high n i ≤ v ∧ v < edge low high n (i + 1)
  beyond : low < high → ∀ v, high ≤ v → index v = n - 1
  before : low < high → ∀ v, v < low → index v = 0
  /-- An axis of no extent has its first cell only. -/
  flat : low = high → ∀ v, index v = 0
  /-- A coordinate has the cell of the nearest one on the axis. -/
  nearest : ∀ v, index v = index (max low (min v high))
  mono : Monotone index

variable {low high v : ℝ} {n : ℕ}

/-- The exact cell of a coordinate. -/
theorem index_real (a : Axis ℝ) (n : ℕ) (v : ℝ) :
    a.index n v = if a.size ≤ 0 then 0 else min ⌊(v - a.origin) / a.size⌋₊ (n - 1) := by
  rw [index, ← Int.floor_toNat]
  simp [Scalar.le, Scalar.zero, Scalar.floor]

/-- An axis is always cut. -/
theorem cut_real (low high : ℝ) (n : ℕ) : cut low high n = .ok ⟨low, (high - low) / n⟩ := by
  rw [← Int.cast_natCast n]
  rfl

section

variable (hn : 0 < n) (h : low < high)
include hn h

theorem size_pos : 0 < (high - low) / n :=
  div_pos (sub_pos.mpr h) (Nat.cast_pos.mpr hn)

/-- Coordinates are counted in cells from the start of the axis. -/
theorem index_of_lt (v : ℝ) :
    index ⟨low, (high - low) / n⟩ n v = min ⌊(v - low) / ((high - low) / n)⌋₊ (n - 1) := by
  rw [index_real, if_neg (size_pos hn h).not_ge]

/-- An edge is below a coordinate as its number is below the count of cells. -/
theorem edge_le_iff (i : ℤ) : edge low high n i ≤ v ↔ i ≤ (v - low) / ((high - low) / n) := by
  rw [edge, le_div_iff₀ (size_pos hn h), le_sub_iff_add_le']

theorem edge_lt_iff (i : ℤ) : edge low high n i < v ↔ i < (v - low) / ((high - low) / n) := by
  rw [edge, lt_div_iff₀ (size_pos hn h), lt_sub_iff_add_lt']

theorem lt_edge_iff (i : ℤ) : v < edge low high n i ↔ (v - low) / ((high - low) / n) < i := by
  rw [← not_le, edge_le_iff hn h, not_le]

omit hn in
/-- All cells together make the axis. -/
theorem cells_of_high : (high - low) / ((high - low) / n) = n :=
  div_div_cancel₀ (sub_pos.mpr h).ne'

theorem edge_le_high_iff (i : ℤ) : edge low high n i ≤ high ↔ i ≤ n := by
  rw [edge_le_iff hn h, cells_of_high h]
  exact_mod_cast Iff.rfl

theorem high_le_edge_iff (i : ℤ) : high ≤ edge low high n i ↔ n ≤ i := by
  rw [← not_lt, edge_lt_iff hn h, cells_of_high h, not_lt]
  exact_mod_cast Iff.rfl

/-- **The cell between whose edges a coordinate lies.** -/
theorem index_eq_iff (hlow : low ≤ v) (hhigh : v < high) (i : ℤ) :
    index ⟨low, (high - low) / n⟩ n v = i ↔
      edge low high n i ≤ v ∧ v < edge low high n (i + 1) := by
  set x := (v - low) / ((high - low) / n) with hx
  have hnonneg : 0 ≤ x := div_nonneg (sub_nonneg.mpr hlow) (size_pos hn h).le
  have hbelow : x < n := by
    calc x < (high - low) / ((high - low) / n) :=
          div_lt_div_of_pos_right (sub_lt_sub_right hhigh low) (size_pos hn h)
      _ = n := cells_of_high h
  have hfloor : ⌊x⌋₊ < n := (Nat.floor_lt hnonneg).mpr hbelow
  rw [index_of_lt hn h, ← hx, min_eq_left (by omega), Int.natCast_floor_eq_floor hnonneg,
    Int.floor_eq_iff, edge_le_iff hn h, lt_edge_iff hn h, Int.cast_add, Int.cast_one]

/-- What lies at the end of the axis or beyond has the last cell. -/
theorem index_of_high_le (hv : high ≤ v) : index ⟨low, (high - low) / n⟩ n v = n - 1 := by
  rw [index_of_lt hn h, min_eq_right]
  have hcount : (n : ℝ) ≤ (v - low) / ((high - low) / n) := by
    calc (n : ℝ) = (high - low) / ((high - low) / n) := (cells_of_high h).symm
      _ ≤ (v - low) / ((high - low) / n) :=
        div_le_div_of_nonneg_right (sub_le_sub_right hv low) (size_pos hn h).le
  have hfloor := Nat.le_floor hcount
  omega

/-- What lies before the axis has the first cell. -/
theorem index_of_lt_low (hv : v ≤ low) : index ⟨low, (high - low) / n⟩ n v = 0 := by
  have hcount : (v - low) / ((high - low) / n) ≤ 0 :=
    div_nonpos_of_nonpos_of_nonneg (sub_nonpos.mpr hv) (size_pos hn h).le
  rw [index_of_lt hn h, Nat.floor_of_nonpos hcount, Nat.zero_min]

end

/-- An axis of no extent has its first cell only. -/
theorem index_of_flat (low : ℝ) (n : ℕ) (v : ℝ) : index ⟨low, (low - low) / n⟩ n v = 0 := by
  rw [index_real, sub_self, zero_div, if_pos le_rfl]

/-- Greater coordinates have no lower cell. -/
theorem monotone_index (a : Axis ℝ) (n : ℕ) : Monotone (a.index n) := by
  intro v w hvw
  rw [index_real, index_real]
  split_ifs with hsize
  · exact le_rfl
  · have hdiv : (v - a.origin) / a.size ≤ (w - a.origin) / a.size := by
      have := not_le.mp hsize
      gcongr
    exact min_le_min_right _ (Nat.floor_mono hdiv)

/-- **The cells of an axis.** -/
theorem isBinning_cut (hn : 0 < n) (hle : low ≤ high) :
    IsBinning low high n (index ⟨low, (high - low) / n⟩ n) where
  lt v := Grid.index_lt _ hn v
  inside h v hlow hhigh i := index_eq_iff hn h hlow hhigh i
  beyond h v hv := index_of_high_le hn h hv
  before h v hv := index_of_lt_low hn h hv.le
  flat h v := by
    subst h
    exact index_of_flat low n v
  nearest v := by
    rcases hle.eq_or_lt with rfl | h
    · rw [index_of_flat, index_of_flat]
    · rcases le_total v low with hv | hv
      · rw [min_eq_left (hv.trans hle), max_eq_left hv, index_of_lt_low hn h hv,
          index_of_lt_low hn h le_rfl]
      · rcases le_total high v with hv' | hv'
        · rw [min_eq_right hv', max_eq_right hle, index_of_high_le hn h hv',
            index_of_high_le hn h le_rfl]
        · rw [min_eq_left hv', max_eq_right hv]
  mono := monotone_index _ n

/-- **The cell of a coordinate is the one that holds it.** -/
theorem IsBinning.mem_cell_iff {index : ℝ → ℕ} (hindex : IsBinning low high n index)
    (hlow : low ≤ v) (hhigh : v ≤ high) {i : ℕ} (hi : i < n) :
    v ∈ cell low high n i ↔ i = index v := by
  have hn : 0 < n := by omega
  rcases (hlow.trans hhigh).eq_or_lt with rfl | h
  · rw [hindex.flat rfl v]
    simp [cell, hlow, hhigh]
  · have hmem : v ∈ cell low high n i ↔
        edge low high n i ≤ v ∧ (v < edge low high n (i + 1) ∨ i + 1 = n) := by
      simp [cell, hlow, hhigh, h.ne]
    -- the upper edge of the last cell is the end of the axis
    have hlast : i + 1 = n ↔ high ≤ edge low high n (i + 1) := by
      rw [high_le_edge_iff hn h]
      omega
    rw [hmem, hlast]
    rcases hhigh.eq_or_lt with rfl | hbefore
    · have hstart : edge low v n i ≤ v := (edge_le_high_iff hn h i).mpr (by omega)
      rw [hindex.beyond h v le_rfl, and_iff_right hstart, or_iff_right_of_imp le_of_lt, ← hlast]
      omega
    · rw [or_iff_left_of_imp hbefore.trans_le, ← hindex.inside h v hlow hbefore i, Nat.cast_inj]
      exact eq_comm

end Axis

namespace Grid

/-- **Points are binned exactly.** The row of a point is the cell of its latitude and the column
that of its longitude, and both are as described for each axis. So of the cells of the grid, the
one that holds a point of the envelope is the cell of that point, and no other. -/
theorem cut_bins (e : Envelope ℝ) {n : ℕ} (hn : 0 < n) (hlon : e.minLon ≤ e.maxLon)
    (hlat : e.minLat ≤ e.maxLat) :
    ∃ (g : Grid ℝ) (row col : ℝ → ℕ), cut e n = .ok g ∧
      (∀ lon lat, g.cellAt lon lat = ⟨row lat, col lon⟩) ∧
      Axis.IsBinning e.minLat e.maxLat n row ∧ Axis.IsBinning e.minLon e.maxLon n col ∧
      ∀ lon lat, e.minLon ≤ lon → lon ≤ e.maxLon → e.minLat ≤ lat → lat ≤ e.maxLat →
        ∀ c : Cell, (c ∈ g.cells ∧ lat ∈ Axis.cell e.minLat e.maxLat n c.row ∧
          lon ∈ Axis.cell e.minLon e.maxLon n c.col) ↔ c = g.cellAt lon lat := by
  have hrow := Axis.isBinning_cut hn hlat
  have hcol := Axis.isBinning_cut hn hlon
  have hcut : cut e n = .ok ⟨e, n, ⟨e.minLon, (e.maxLon - e.minLon) / n⟩,
      ⟨e.minLat, (e.maxLat - e.minLat) / n⟩⟩ := by
    rw [cut, Axis.cut_real, Axis.cut_real]
    rfl
  refine ⟨_, _, _, hcut, fun _ _ => rfl, hrow, hcol, ?_⟩
  rintro lon lat hlon₀ hlon₁ hlat₀ hlat₁ ⟨i, j⟩
  rw [mem_cells]
  constructor
  · rintro ⟨⟨hi, hj⟩, hlatmem, hlonmem⟩
    rw [hrow.mem_cell_iff hlat₀ hlat₁ hi] at hlatmem
    rw [hcol.mem_cell_iff hlon₀ hlon₁ hj] at hlonmem
    rw [cellAt, ← hlatmem, ← hlonmem]
  · intro hcell
    obtain ⟨rfl, rfl⟩ := Cell.mk.inj hcell
    refine ⟨⟨hrow.lt lat, hcol.lt lon⟩, ?_, ?_⟩
    · exact (hrow.mem_cell_iff hlat₀ hlat₁ (hrow.lt lat)).mpr rfl
    · exact (hcol.mem_cell_iff hlon₀ hlon₁ (hcol.lt lon)).mpr rfl

/-- An envelope of one degree of longitude at one latitude. -/
noncomputable def level : Envelope ℝ := ⟨0, 1, 1, 1⟩

/-- The edge between the first two of three columns belongs to the second, and the eastern side to
the third; there is one row. -/
theorem cut_bins_level : ∃ g : Grid ℝ, cut level 3 = .ok g ∧ g.cellAt (1 / 3) 1 = ⟨0, 1⟩ ∧
    g.cellAt 1 1 = ⟨0, 2⟩ := by
  have hlon : level.minLon < level.maxLon := zero_lt_one
  obtain ⟨g, row, col, hg, hcell, hrow, hcol, -⟩ :=
    cut_bins level (n := 3) (by decide) hlon.le le_rfl
  have hedge : col (1 / 3) = 1 := by
    have hinside := hcol.inside hlon (1 / 3) (by norm_num [level]) (by norm_num [level]) 1
    exact_mod_cast hinside.mpr (by norm_num [level, Axis.edge])
  have hside : col 1 = 2 := hcol.beyond hlon 1 le_rfl
  refine ⟨g, hg, ?_, ?_⟩
  · rw [hcell, hedge, hrow.flat rfl]
  · rw [hcell, hside, hrow.flat rfl]

end Grid

end Corridor
