import Corridor.Grid
import Corridor.Proofs.Number.Bounds
import Corridor.Proofs.Run
import Mathlib.Data.Finset.Card
import Mathlib.Data.List.Nodup
import Mathlib.Data.List.Range

/-!
# Tube Cells of a Grid

A grid that was built has centres: its divisions have a double, and so has every row and column.
The cells that shapes cover are therefore always known, each of them once, and they are the cells
whose centre a shape that is not empty covers.

## Main results

* `exists_centre`: every cell of a grid that was built has a centre.
* `exists_cellsCovered`: the covered cells are known, and which they are.
-/

namespace Corridor.Grid

/-- A cell of the grid whose centre is covered by a shape that is there and not empty. -/
def IsTubeCell (g : Grid Float) (shapes : List (Option Shape)) (c : Cell) : Prop :=
  c.row < g.divisions ∧ c.col < g.divisions ∧ ∃ x y : Float, g.centre c.row c.col = .ok (x, y) ∧
    ∃ s, some s ∈ shapes ∧ s.isEmpty = false ∧ s.covers ⟨x, y⟩ = true

theorem mem_present {shapes : List (Option Shape)} {s : Shape} :
    s ∈ Shape.present shapes ↔ some s ∈ shapes ∧ s.isEmpty = false := by
  simp [Shape.present, Option.filter_eq_some_iff]

section

variable {α : Type} (g : Grid α)

theorem mem_cells {c : Cell} : c ∈ g.cells ↔ c.row < g.divisions ∧ c.col < g.divisions := by
  obtain ⟨row, col⟩ := c
  simp [cells]

theorem length_cells : g.cells.length = g.size := by
  simp [cells, size]

/-- The cells of a grid are listed row by row, and those of a row by their columns. -/
theorem pairwise_cells :
    g.cells.Pairwise fun a b => a.row < b.row ∨ a.row = b.row ∧ a.col < b.col := by
  rw [cells, List.pairwise_flatMap]
  constructor
  · intro row _
    rw [List.pairwise_map]
    exact List.pairwise_lt_range.imp fun h => .inr ⟨rfl, h⟩
  · refine List.pairwise_lt_range.imp fun {i j} hij a ha b hb => ?_
    obtain ⟨_, -, rfl⟩ := List.mem_map.mp ha
    obtain ⟨_, -, rfl⟩ := List.mem_map.mp hb
    exact .inl hij

theorem nodup_cells : g.cells.Nodup := by
  refine (pairwise_cells g).imp ?_
  rintro a b (hrow | ⟨-, hcol⟩) rfl
  · exact lt_irrefl _ hrow
  · exact lt_irrefl _ hcol

theorem index_lt [Scalar α] (a : Axis α) {n : ℕ} (hn : 0 < n) (v : α) : a.index n v < n := by
  rw [Axis.index]
  split_ifs
  · exact hn
  · omega

end

variable {extent : Extent} {divisions : Datum} {g : Grid Float}

/-- There are no more tube cells than cells. -/
theorem card_le_size {tube : Finset Cell} {shapes : List (Option Shape)}
    (h : ∀ c ∈ tube, g.IsTubeCell shapes c) : tube.card ≤ g.size := by
  have hsub : tube ⊆ g.cells.toFinset := fun c hc =>
    List.mem_toFinset.mpr ((mem_cells g).mpr ⟨(h c hc).1, (h c hc).2.1⟩)
  rw [← length_cells, ← List.toFinset_card_of_nodup (nodup_cells g)]
  exact Finset.card_le_card hsub

/-- The grid over bounds that are in order. -/
theorem build_bounds {minLon minLat maxLon maxLat x : Float} {n : ℕ} (hn : 0 < n)
    (hlon : ¬maxLon < minLon) (hlat : ¬maxLat < minLat) (hx : Scalar.ofInt n = .ok x) :
    build (.bounds [minLon, minLat, maxLon, maxLat]) (.whole n) =
      .ok ⟨⟨minLon, minLat, maxLon, maxLat⟩, n, ⟨minLon, (maxLon - minLon) / x⟩,
        ⟨minLat, (maxLat - minLat) / x⟩⟩ := by
  have hdivisions : divisionsOf (.whole n) = .ok n := by
    rw [divisionsOf, if_pos (Int.natCast_pos.mpr hn), Int.toNat_natCast]
  have henvelope : Extent.envelope (.bounds [minLon, minLat, maxLon, maxLat]) =
      .ok ⟨minLon, minLat, maxLon, maxLat⟩ := by
    simp [Extent.envelope, hlon, hlat]
  have hcut : ∀ low high : Float, Axis.cut low high n = .ok ⟨low, (high - low) / x⟩ := by
    intro low high
    rw [Axis.cut, hx]
    rfl
  rw [build, hdivisions]
  refine Run.bind_eq_ok.mpr ⟨n, rfl, Run.bind_eq_ok.mpr ⟨_, henvelope, ?_⟩⟩
  refine Run.mapError_eq_ok.mpr (Run.bind_eq_ok.mpr ⟨_, hcut _ _, ?_⟩)
  exact Run.bind_eq_ok.mpr ⟨_, hcut _ _, rfl⟩

/-- The divisions of a grid that was built have a double. -/
theorem exists_ofInt_divisions (h : build extent divisions = .ok g) :
    ∃ x : Float, Scalar.ofInt g.divisions = .ok x := by
  obtain ⟨n, -, h⟩ := Run.bind_eq_ok.mp h
  obtain ⟨e, -, h⟩ := Run.bind_eq_ok.mp h
  have h := Run.mapError_eq_ok.mp h
  obtain ⟨lonAxis, hlon, h⟩ := Run.bind_eq_ok.mp h
  obtain ⟨latAxis, -, h⟩ := Run.bind_eq_ok.mp h
  obtain ⟨x, hx, -⟩ := Run.bind_eq_ok.mp hlon
  have hdivisions : g.divisions = n := by rw [← Except.ok.inj h]
  exact ⟨x, by rw [hdivisions, hx]⟩

/-- Every cell of a grid that was built has a centre. -/
theorem exists_centre (h : build extent divisions = .ok g) {c : Cell} (hc : c ∈ g.cells) :
    ∃ xy, g.centre c.row c.col = .ok xy := by
  obtain ⟨hrow, hcol⟩ := (mem_cells g).mp hc
  obtain ⟨n, hn⟩ := exists_ofInt_divisions h
  obtain ⟨row, hrow⟩ := Double.ofInt_of_le (Int.natCast_nonneg c.row) (by exact_mod_cast hrow.le) hn
  obtain ⟨col, hcol⟩ := Double.ofInt_of_le (Int.natCast_nonneg c.col) (by exact_mod_cast hcol.le) hn
  simp only [centre, Axis.centre]
  rw [hrow, hcol]
  exact ⟨_, rfl⟩

/-- **The covered cells are known**: they are the cells of the grid whose centre a shape covers,
each of them once. -/
theorem exists_cellsCovered (h : build extent divisions = .ok g) (shapes : List (Option Shape)) :
    ∃ cells, g.cellsCovered shapes = .ok cells ∧ cells.Nodup ∧
      ∀ c, c ∈ cells ↔ g.IsTubeCell shapes c := by
  have hcentres : ∀ c : Cell, ∃ xy, c ∈ g.cells → g.centre c.row c.col = .ok xy := by
    intro c
    by_cases hc : c ∈ g.cells
    · obtain ⟨xy, hxy⟩ := exists_centre h hc
      exact ⟨xy, fun _ => hxy⟩
    · exact ⟨(0, 0), fun hc' => absurd hc' hc⟩
  choose centreOf hcentreOf using hcentres
  have hcentred : g.centredCells = .ok (g.cells.map fun c => (c, centreOf c)) := by
    refine Run.mapM_eq_map fun c hc => ?_
    rw [hcentreOf c hc]
    rfl
  have hcovered : ∀ c ∈ g.cells, g.IsTubeCell shapes c ↔
      (Shape.present shapes).any (·.covers ⟨(centreOf c).1, (centreOf c).2⟩) = true := by
    intro c hc
    obtain ⟨hrow, hcol⟩ := (mem_cells g).mp hc
    rw [List.any_eq_true]
    constructor
    · rintro ⟨-, -, x, y, hxy, s, hs, hne, hcovers⟩
      rw [hcentreOf c hc] at hxy
      refine ⟨s, mem_present.mpr ⟨hs, hne⟩, ?_⟩
      rw [Except.ok.inj hxy]
      exact hcovers
    · rintro ⟨s, hs, hcovers⟩
      obtain ⟨hs, hne⟩ := mem_present.mp hs
      exact ⟨hrow, hcol, _, _, hcentreOf c hc, s, hs, hne, hcovers⟩
  refine ⟨g.cells.filter fun c => (Shape.present shapes).any
    (·.covers ⟨(centreOf c).1, (centreOf c).2⟩), ?_, (nodup_cells g).filter _, fun c => ?_⟩
  · unfold cellsCovered
    dsimp only
    by_cases hempty : (Shape.present shapes).isEmpty = true
    · rw [if_pos hempty, List.isEmpty_iff.mp hempty]
      simp
      rfl
    · rw [if_neg hempty, hcentred]
      refine congrArg Except.ok ?_
      rw [List.filter_map, List.map_map]
      exact List.map_id _
  · rw [List.mem_filter]
    constructor
    · rintro ⟨hc, hany⟩
      exact (hcovered c hc).mpr hany
    · intro hc
      have hmem := (mem_cells g).mpr ⟨hc.1, hc.2.1⟩
      exact ⟨hmem, (hcovered c hmem).mp hc⟩

end Corridor.Grid
