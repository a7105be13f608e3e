import Corridor.Proofs.Binning

/-!
# Centres of Cells

A grid lists its cells row by row, each with its centre, and the cells of the tube are chosen by
these centres, while observations are counted in the cells that their positions are looked up in. In
exact arithmetic the two agree: on an envelope with an extent along both sides, the centre of a cell
lies half a cell beyond its lower edges and half a cell before its upper ones, so that looking it up
leads back to the cell. Hence no two cells share a centre, and no cell is out of reach.

## Main results

* `Axis.index_middle`: the cell of the middle of a cell.
* `Grid.cut_centres`: the list of all cells with their centres, and where looking these up leads.
-/

namespace Corridor

attribute [local instance] divReal

/-- The envelope holds a point off its sides. -/
structure Envelope.Surrounds (e : Envelope ℝ) (lon lat : ℝ) : Prop where
  minLon_lt : e.minLon < lon
  lt_maxLon : lon < e.maxLon
  minLat_lt : e.minLat < lat
  lt_maxLat : lat < e.maxLat

namespace Axis

variable {low high : ℝ} {n : ℕ}

/-- Where the middle of a cell of the axis from `low` to `high` lies. -/
noncomputable def middle (low high : ℝ) (n : ℕ) (i : ℤ) : ℝ :=
  low + (i + Scalar.half) * ((high - low) / n)

theorem middle_eq (low high : ℝ) (n : ℕ) (i : ℤ) :
    middle low high n i = low + (i + 1 / 2) * ((high - low) / n) :=
  rfl

section

variable (hn : 0 < n) (h : low < high)
include hn h

theorem edge_lt_middle (i : ℤ) : edge low high n i < middle low high n i := by
  have hsize := size_pos hn h
  rw [edge, middle_eq]
  linarith

theorem middle_lt_edge (i : ℤ) : middle low high n i < edge low high n (i + 1) := by
  have hsize := size_pos hn h
  rw [edge, middle_eq, Int.cast_add, Int.cast_one]
  linarith

variable {i : ℕ} (hi : i < n)
include hi

/-- The middle of a cell lies off the ends of the axis. -/
theorem middle_mem : low < middle low high n i ∧ middle low high n i < high := by
  constructor
  · have hstart : low ≤ edge low high n i :=
      le_add_of_nonneg_right (mul_nonneg (by positivity) (size_pos hn h).le)
    exact hstart.trans_lt (edge_lt_middle hn h i)
  · have hend : edge low high n (i + 1) ≤ high := (edge_le_high_iff hn h _).mpr (by omega)
    exact (middle_lt_edge hn h i).trans_le hend

/-- **The cell of a middle** is the one that it is the middle of. -/
theorem index_middle : index ⟨low, (high - low) / n⟩ n (middle low high n i) = i := by
  obtain ⟨hlow, hhigh⟩ := middle_mem hn h hi
  have hcell := (index_eq_iff hn h hlow.le hhigh i).mpr
    ⟨(edge_lt_middle hn h i).le, middle_lt_edge hn h i⟩
  exact_mod_cast hcell

end

end Axis

namespace Grid

/-- The exact centre of a cell. -/
noncomputable def middle (e : Envelope ℝ) (n : ℕ) (c : Cell) : ℝ × ℝ :=
  (Axis.middle e.minLon e.maxLon n c.col, Axis.middle e.minLat e.maxLat n c.row)

/-- An envelope is always cut. -/
theorem cut_real (e : Envelope ℝ) (n : ℕ) :
    cut e n = .ok ⟨e, n, ⟨e.minLon, (e.maxLon - e.minLon) / n⟩,
      ⟨e.minLat, (e.maxLat - e.minLat) / n⟩⟩ := by
  rw [cut, Axis.cut_real, Axis.cut_real]
  rfl

variable {e : Envelope ℝ} {g : Grid ℝ} {n : ℕ}

/-- The cells of an exact grid are listed with their exact centres. -/
theorem centredCells_real (hg : cut e n = .ok g) :
    g.centredCells = .ok (g.cells.map fun c => (c, middle e n c)) := by
  obtain rfl := Except.ok.inj ((cut_real e n).symm.trans hg)
  exact Run.mapM_eq_map fun c _ => rfl

section

variable (hn : 0 < n) (hlon : e.minLon < e.maxLon) (hlat : e.minLat < e.maxLat) {c : Cell}
  (hrow : c.row < n) (hcol : c.col < n)
include hn hlon hlat hrow hcol

/-- A centre lies off the sides of the envelope. -/
theorem surrounds_middle : e.Surrounds (middle e n c).1 (middle e n c).2 := by
  obtain ⟨hlon₀, hlon₁⟩ := Axis.middle_mem hn hlon hcol
  obtain ⟨hlat₀, hlat₁⟩ := Axis.middle_mem hn hlat hrow
  exact ⟨hlon₀, hlon₁, hlat₀, hlat₁⟩

/-- The cell of a centre is the one that it is the centre of. -/
theorem cellAt_middle (hg : cut e n = .ok g) :
    g.cellAt (middle e n c).1 (middle e n c).2 = c := by
  obtain rfl := Except.ok.inj ((cut_real e n).symm.trans hg)
  rw [cellAt, middle, Axis.index_middle hn hlon hcol, Axis.index_middle hn hlat hrow]

end

/-- **Centres and cells.** On an envelope with an extent along both sides, the cells that are listed
are all `n * n` cells of the grid, each of them once and row by row, every one with its centre. The
cell of the centre is the listed one; so the centres are all different, and every cell is that of a
point off the sides of the envelope. -/
theorem cut_centres (e : Envelope ℝ) {n : ℕ} (hn : 0 < n) (hlon : e.minLon < e.maxLon)
    (hlat : e.minLat < e.maxLat) :
    ∃ (g : Grid ℝ) (cs : List (Cell × (ℝ × ℝ))), cut e n = .ok g ∧ g.centredCells = .ok cs ∧
      cs.length = n * n ∧
      (cs.map Prod.fst).Pairwise (fun a b => a.row < b.row ∨ a.row = b.row ∧ a.col < b.col) ∧
      (∀ c : Cell, c ∈ cs.map Prod.fst ↔ c.row < n ∧ c.col < n) ∧
      (∀ x ∈ cs, g.centre x.1.row x.1.col = .ok x.2 ∧ g.cellAt x.2.1 x.2.2 = x.1) ∧
      (cs.map Prod.snd).Nodup ∧
      ∀ c : Cell, c.row < n → c.col < n →
        ∃ lon lat, e.Surrounds lon lat ∧ g.cellAt lon lat = c := by
  obtain ⟨g, hg, hdivisions⟩ : ∃ g : Grid ℝ, cut e n = .ok g ∧ g.divisions = n :=
    ⟨_, cut_real e n, rfl⟩
  have hmem : ∀ c : Cell, c ∈ g.cells ↔ c.row < n ∧ c.col < n := fun c => by
    rw [mem_cells, hdivisions]
  have hback : ∀ c ∈ g.cells, g.cellAt (middle e n c).1 (middle e n c).2 = c := fun c hc =>
    cellAt_middle hn hlon hlat ((hmem c).mp hc).1 ((hmem c).mp hc).2 hg
  have hcells : (g.cells.map fun c => (c, middle e n c)).map Prod.fst = g.cells := by
    rw [List.map_map]
    exact List.map_id _
  refine ⟨g, _, hg, centredCells_real hg, ?_, ?_, fun c => ?_, fun x hx => ?_, ?_, ?_⟩
  · rw [List.length_map, length_cells, size, hdivisions]
  · rw [hcells]
    exact pairwise_cells g
  · rw [hcells]
    exact hmem c
  · obtain ⟨c, hc, rfl⟩ := List.mem_map.mp hx
    refine ⟨?_, hback c hc⟩
    obtain rfl := Except.ok.inj ((cut_real e n).symm.trans hg)
    rfl
  · -- looking up is a left inverse of listing, so equal centres have equal cells
    rw [List.map_map]
    refine List.Nodup.map_on (fun c hc d hd hcd => ?_) (nodup_cells g)
    rw [← hback c hc, ← hback d hd]
    exact congrArg (fun p : ℝ × ℝ => g.cellAt p.1 p.2) hcd
  · intro c hrow hcol
    exact ⟨_, _, surrounds_middle hn hlon hlat hrow hcol,
      cellAt_middle hn hlon hlat hrow hcol hg⟩

/-- An envelope of two degrees of longitude by one of latitude. -/
noncomputable def oblong : Envelope ℝ := ⟨0, 0, 1 + 1, 1⟩

/-- The last cell of the first of three rows, by its centre. -/
theorem cut_centres_oblong : oblong.minLon < oblong.maxLon ∧ oblong.minLat < oblong.maxLat ∧
    ∃ (g : Grid ℝ) (cs : List (Cell × (ℝ × ℝ))), cut oblong 3 = .ok g ∧
      g.centredCells = .ok cs ∧ cs.length = 9 ∧ (⟨0, 2⟩, (5 / 3, 1 / 6)) ∈ cs ∧
      g.cellAt (5 / 3) (1 / 6) = ⟨0, 2⟩ := by
  have hlon : oblong.minLon < oblong.maxLon := by norm_num [oblong]
  have hlat : oblong.minLat < oblong.maxLat := by norm_num [oblong]
  obtain ⟨g, cs, hg, hcs, hlength, -, hmem, hcentre, -, -⟩ :=
    cut_centres oblong (n := 3) (by decide) hlon hlat
  obtain ⟨⟨c, p⟩, hx, rfl⟩ := List.mem_map.mp ((hmem ⟨0, 2⟩).mpr ⟨by decide, by decide⟩)
  obtain ⟨hp, hcell⟩ := hcentre _ hx
  have hmiddle : p = (5 / 3, 1 / 6) := by
    obtain rfl := Except.ok.inj ((cut_real oblong 3).symm.trans hg)
    obtain rfl : middle oblong 3 ⟨0, 2⟩ = p := Except.ok.inj hp
    norm_num [middle, Axis.middle_eq, oblong]
  rw [hmiddle] at hx hcell
  exact ⟨hlon, hlat, g, cs, hg, hcs, hlength, hx, hcell⟩

end Grid

end Corridor
