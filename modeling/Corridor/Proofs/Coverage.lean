import Corridor.Collection
import Corridor.Proofs.Catalog
import Corridor.Proofs.Run
import Corridor.Survey
import Mathlib.Data.Finset.Card
import Mathlib.Data.List.Sort

/-!
# Cells Touched by an Entity

The counts of a ranking, said of one entity at a time: how many of its pings lie in a cell
(`visits`), and in which cells any do (`touched`). Every field that a ranking takes from its
grid is a function of these two, so it depends on the pings of the entity alone.

## Main results

* `gridCounts_of_finite`: the counts over a grid are the table of all visits.
* `getD_boxCoverage`, `getD_tubeCoverage`: coverage counts the cells touched.
* `countsOf_tubeMaps`: the counts behind a spread are the visits to the tube cells touched.
-/

namespace Corridor

/-! ### Order of cells -/

namespace Cell

theorem before_iff {a b : Cell} :
    before a b = true ↔ a.row < b.row ∨ a.row = b.row ∧ a.col ≤ b.col := by
  simp [before]

theorem before_trans {a b c : Cell} (hab : before a b = true) (hbc : before b c = true) :
    before a c = true := by
  rw [before_iff] at *
  omega

theorem before_total (a b : Cell) : (before a b || before b a) = true := by
  rw [Bool.or_eq_true, before_iff, before_iff]
  omega

theorem before_antisymm {a b : Cell} (hab : before a b = true) (hba : before b a = true) :
    a = b := by
  rw [before_iff] at *
  obtain ⟨r, c⟩ := a
  obtain ⟨r', c'⟩ := b
  simp only [mk.injEq] at *
  omega

/-- Cells in row-major order are determined by which they are. -/
theorem eq_of_mem_iff {xs ys : List Cell} (hxs : xs.Pairwise fun a b => before a b = true)
    (hys : ys.Pairwise fun a b => before a b = true) (hx : xs.Nodup) (hy : ys.Nodup)
    (h : ∀ c, c ∈ xs ↔ c ∈ ys) : xs = ys :=
  List.Perm.eq_of_pairwise (fun _ _ _ _ hab hba => before_antisymm hab hba) hxs hys
    ((List.perm_ext_iff_of_nodup hx hy).mpr h)

end Cell

/-- The cell of a ping. -/
def Grid.cellOf (g : Grid Float) (p : Ping) : Cell := g.cellAt p.lon p.lat

namespace Coverage

variable (g : Grid Float) (ps : List Ping) (k : String) (c : Cell)

/-- How many pings of an entity lie in a cell. -/
def visits : ℕ := ps.countP fun p => p.key == k && decide (g.cellOf p = c)

/-- The cells in which an entity was observed. -/
def touched : Finset Cell := ((ps.filter fun p => p.key == k).map g.cellOf).toFinset

/-- The keys of the pings in a cell. -/
def keysIn : List String := (ps.filter fun p => g.cellOf p = c).map Ping.key

/-- The cells in which anything was observed, row by row. -/
def occupied : List Cell := ((ps.map g.cellOf).mergeSort Cell.before).eraseDups

variable {g ps k c}

theorem mem_touched : c ∈ touched g ps k ↔ ∃ p ∈ ps, p.key = k ∧ g.cellOf p = c := by
  simp [touched, and_assoc]

theorem visits_pos_iff : 0 < visits g ps k c ↔ c ∈ touched g ps k := by
  rw [visits, List.countP_pos_iff, mem_touched]
  simp

theorem mem_keysIn : k ∈ keysIn g ps c ↔ c ∈ touched g ps k := by
  simp only [keysIn, List.mem_map, List.mem_filter, decide_eq_true_eq, mem_touched]
  constructor
  · rintro ⟨p, ⟨hp, hc⟩, rfl⟩
    exact ⟨p, hp, rfl, hc⟩
  · rintro ⟨p, hp, rfl, hc⟩
    exact ⟨p, ⟨hp, hc⟩, rfl⟩

theorem count_keysIn : (keysIn g ps c).count k = visits g ps k c := by
  rw [keysIn, List.count, List.countP_map, List.countP_filter, visits]
  rfl

theorem mem_occupied : c ∈ occupied g ps ↔ ∃ p ∈ ps, g.cellOf p = c := by
  simp [occupied]

theorem mem_occupied_of_touched (h : c ∈ touched g ps k) : c ∈ occupied g ps := by
  obtain ⟨p, hp, -, hc⟩ := mem_touched.mp h
  exact mem_occupied.mpr ⟨p, hp, hc⟩

theorem nodup_occupied (g : Grid Float) (ps : List Ping) : (occupied g ps).Nodup :=
  Catalog.nodup_eraseDups _

theorem occupied_ordered (g : Grid Float) (ps : List Ping) :
    (occupied g ps).Pairwise fun a b => Cell.before a b = true :=
  (@List.pairwise_mergeSort Cell Cell.before (fun _ _ _ => Cell.before_trans)
    Cell.before_total (ps.map g.cellOf)).sublist (Catalog.eraseDups_sublist _)

/-! ### Counts over a grid -/

/-- The counts of the observations by cell and key. -/
def table (g : Grid Float) (ps : List Ping) : Catalog Cell (Catalog String ℕ) :=
  Catalog.tabulate ((ps.map g.cellOf).mergeSort Cell.before) fun c => Catalog.tally (keysIn g ps c)

theorem zipWith_cells (g : Grid Float) (ps : List Ping) :
    List.zipWith g.cellAt (ps.map Ping.lon) (ps.map Ping.lat) = ps.map g.cellOf := by
  induction ps with
  | nil => rfl
  | cons p ps ih =>
      simp only [List.map_cons, List.zipWith_cons_cons, ih]
      rfl

/-- The keys in a cell, of pings that were binned. -/
theorem filter_zip_cells (g : Grid Float) (ps : List Ping) (c : Cell) :
    (((ps.map g.cellOf).zip (ps.map Ping.key)).filter fun b => b.1 = c).map (·.2) =
      keysIn g ps c := by
  rw [List.zip_map', List.filter_map, List.map_map]
  rfl

/-- Coordinates that are looked up are finite if the positions are. -/
theorem all_isFinite_iff (ps : List Ping) :
    ((ps.map Ping.lon).all Float.isFinite && (ps.map Ping.lat).all Float.isFinite) = true ↔
      ∀ p ∈ ps, p.position.isFinite = true := by
  rw [Bool.and_eq_true, List.all_map, List.all_map, List.all_eq_true, List.all_eq_true,
    ← forall₂_and]
  simp [Ping.position, Position.isFinite]

/-- The counts over a grid are the table of the pings. -/
theorem gridCounts_of_finite {c : PingCollection} (g : Grid Float)
    (h : ∀ p ∈ c.pings, p.position.isFinite = true) : c.gridCounts g = .ok (table g c.pings) := by
  rw [PingCollection.gridCounts]
  by_cases hempty : c.pings.isEmpty = true
  · have htable : table g [] = Catalog.empty := by simp [table, Catalog.tabulate, Catalog.empty]
    rw [if_pos hempty, List.isEmpty_iff.mp hempty, htable]
    rfl
  · rw [if_neg hempty, Grid.cellsAt, if_neg (by simp), if_pos ((all_isFinite_iff _).mpr h),
      zipWith_cells]
    simp only [bind, Except.bind, filter_zip_cells]
    rfl

/-- The positions that are counted have to be finite. -/
theorem isFinite_of_gridCounts {c : PingCollection} {g : Grid Float}
    {cells : Catalog Cell (Catalog String ℕ)} (h : c.gridCounts g = .ok cells) :
    ∀ p ∈ c.pings, p.position.isFinite = true := by
  rw [PingCollection.gridCounts] at h
  by_cases hempty : c.pings.isEmpty = true
  · rw [List.isEmpty_iff.mp hempty]
    simp
  · rw [if_neg hempty] at h
    obtain ⟨cells', hcells, -⟩ := Run.bind_eq_ok.mp h
    rw [Grid.cellsAt] at hcells
    split_ifs at hcells with hlength hall
    exact (all_isFinite_iff _).mp hall

/-- Of a table, the maps of some of its cells. -/
def cellMaps (g : Grid Float) (ps : List Ping) (cells : List Cell) : List (Catalog String ℤ) :=
  cells.map fun c => (Catalog.tally (keysIn g ps c)).map fun _ (n : ℕ) => (n : ℤ)

/-- The count of an entity in a cell, if it was observed there. -/
theorem get?_cellMap (g : Grid Float) (ps : List Ping) (k : String) (c : Cell) :
    ((Catalog.tally (keysIn g ps c)).map fun _ (n : ℕ) => (n : ℤ)).get? k =
      if c ∈ touched g ps k then some (visits g ps k c : ℤ) else none := by
  rw [Catalog.get?_map, Catalog.get?_tally, count_keysIn]
  by_cases h : c ∈ touched g ps k
  · rw [if_pos h, if_pos (mem_keysIn.mpr h)]
    rfl
  · rw [if_neg h, if_neg fun hk => h (mem_keysIn.mp hk)]
    rfl

/-- The counts of an entity over some cells are its visits to those it touches. -/
theorem countsOf_cellMaps (g : Grid Float) (ps : List Ping) (cells : List Cell) (k : String) :
    CellCounts.countsOf (cellMaps g ps cells) k =
      (cells.filter (· ∈ touched g ps k)).map fun c => (visits g ps k c : ℤ) := by
  have hget : ((fun m : Catalog String ℤ => m.get? k) ∘ fun c =>
      (Catalog.tally (keysIn g ps c)).map fun _ (n : ℕ) => (n : ℤ)) =
        fun c => if c ∈ touched g ps k then some (visits g ps k c : ℤ) else none :=
    funext fun c => get?_cellMap g ps k c
  rw [CellCounts.countsOf, cellMaps, List.filterMap_map, hget]
  induction cells with
  | nil => rfl
  | cons c cells ih =>
      rw [List.filterMap_cons, List.filter_cons, ih]
      by_cases h : c ∈ touched g ps k <;> simp [h]

/-- The totals of capped counts over some cells are the numbers of those touched. -/
theorem getD_totals_capped (g : Grid Float) (ps : List Ping) (cells : List Cell) (k : String) :
    (CellCounts.totals ((cellMaps g ps cells).map CellCounts.capped)).getD k 0 =
      (cells.filter (· ∈ touched g ps k)).length := by
  have hcell : ∀ c : Cell,
      (((CellCounts.capped ((Catalog.tally (keysIn g ps c)).map fun _ (n : ℕ) =>
        (n : ℤ))).entries.filter fun e => e.1 == k).map (·.2)).sum =
          if c ∈ touched g ps k then (1 : ℤ) else 0 := by
    intro c
    rw [Catalog.filter_entries, CellCounts.capped, Catalog.get?_map, get?_cellMap]
    · by_cases h : c ∈ touched g ps k
      · have := visits_pos_iff.mpr h
        simp only [h, if_true, Option.map_some, Option.toList_some, List.sum_singleton]
        omega
      · simp [h]
    · simp only [CellCounts.capped, Catalog.keys_map, Catalog.tally]
      exact Catalog.nodup_keys_tabulate _ _
  have hempty : (Catalog.empty : Catalog String ℤ).getD k 0 = 0 := rfl
  rw [CellCounts.totals, cellMaps, Catalog.getD_foldl_add, hempty, zero_add]
  induction cells with
  | nil => rfl
  | cons c cells ih =>
      rw [List.map_cons, List.map_cons, List.flatMap_cons, List.filter_append, List.map_append,
        List.sum_append, hcell, ih, List.filter_cons]
      by_cases h : c ∈ touched g ps k
      · simp [h, add_comm]
      · simp [h]

/-! ### Surveys -/

/-- The survey of the pings of a box and a tube over a grid, given the cells of the tube. -/
def survey (g : Grid Float) (box tube : List Ping) (cells : List Cell) : Survey :=
  ⟨Catalog.tally (tube.map Ping.key), Catalog.tally (box.map Ping.key), table g box, cells,
    g.divisions⟩

/-- The tube cells in which an entity was observed, row by row. -/
def tubeTouched (g : Grid Float) (ps : List Ping) (cells : List Cell) (k : String) : List Cell :=
  ((occupied g ps).filter cells.contains).filter (· ∈ touched g ps k)

variable (g : Grid Float) (box tube : List Ping) (cells : List Cell) (k : String)

theorem boxMaps_survey :
    (survey g box tube cells).boxMaps = cellMaps g box (occupied g box) := by
  rw [Survey.boxMaps, survey, table, Catalog.values_tabulate, List.map_map]
  rfl

theorem tubeMaps_survey : (survey g box tube cells).tubeMaps =
    cellMaps g box ((occupied g box).filter cells.contains) := by
  rw [Survey.tubeMaps, survey, table, Catalog.filterKeys, Catalog.values, Catalog.tabulate,
    List.filter_map, List.map_map, List.map_map]
  rfl

theorem mem_tubeTouched {ps : List Ping} {c : Cell} :
    c ∈ tubeTouched g ps cells k ↔ c ∈ touched g ps k ∧ c ∈ cells := by
  simp only [tubeTouched, List.mem_filter, decide_eq_true_eq, List.contains_iff_mem]
  constructor
  · rintro ⟨⟨-, hc⟩, ht⟩
    exact ⟨ht, hc⟩
  · rintro ⟨ht, hc⟩
    exact ⟨⟨mem_occupied_of_touched ht, hc⟩, ht⟩

theorem nodup_tubeTouched (ps : List Ping) : (tubeTouched g ps cells k).Nodup :=
  ((nodup_occupied g ps).filter _).filter _

theorem tubeTouched_ordered (ps : List Ping) :
    (tubeTouched g ps cells k).Pairwise fun a b => Cell.before a b = true :=
  ((occupied_ordered g ps).filter _).filter _

/-- The cells of a box that are covered are those that are touched. -/
theorem getD_boxCoverage :
    (survey g box tube cells).boxCoverage.getD k 0 = (touched g box k).card := by
  rw [Survey.boxCoverage, boxMaps_survey, getD_totals_capped]
  have hset : ((occupied g box).filter (· ∈ touched g box k)).toFinset = touched g box k := by
    ext c
    simp only [List.mem_toFinset, List.mem_filter, decide_eq_true_eq, and_iff_right_iff_imp]
    exact mem_occupied_of_touched
  rw [← hset, List.toFinset_card_of_nodup ((nodup_occupied g box).filter _), hset]

/-- The cells of a tube that are covered are those of them that are touched. -/
theorem getD_tubeCoverage : (survey g box tube cells).tubeCoverage.getD k 0 =
    ((touched g box k).filter (· ∈ cells)).card := by
  rw [Survey.tubeCoverage, tubeMaps_survey, getD_totals_capped]
  have hset : (tubeTouched g box cells k).toFinset = (touched g box k).filter (· ∈ cells) := by
    ext c
    rw [List.mem_toFinset, mem_tubeTouched, Finset.mem_filter]
  rw [← hset, List.toFinset_card_of_nodup (nodup_tubeTouched g cells k box)]
  rfl

/-- The counts behind a spread are the visits to the tube cells that are touched. -/
theorem countsOf_tubeMaps : CellCounts.countsOf (survey g box tube cells).tubeMaps k =
    (tubeTouched g box cells k).map fun c => (visits g box k c : ℤ) := by
  rw [tubeMaps_survey, countsOf_cellMaps]
  rfl

end Coverage

/-! ### Spreads -/

namespace CellCounts

variable {α : Type} [Scalar α] {ms : List (Catalog String ℤ)} {n : ℤ}

/-- The deviation of counts that are not zero, over a number of cells. -/
def spreadOfCounts (counts : List ℤ) (n : ℤ) : Except ArithmeticFault α := do
  let counts ← counts.mapM (Scalar.ofInt (α := α))
  Stats.deviation (counts ++ List.replicate (n - counts.length).toNat Scalar.zero)

theorem spreadOf_eq (ms : List (Catalog String ℤ)) (n : ℤ) (k : String) :
    (spreadOf ms n k : Except ArithmeticFault α) = spreadOfCounts (countsOf ms k) n := rfl

/-- The keys that have a spread are those that have counts. -/
theorem mem_keys_iff (k : String) :
    k ∈ (ms.flatMap Catalog.keys).eraseDups ↔ countsOf ms k ≠ [] := by
  rw [List.mem_eraseDups, List.mem_flatMap, countsOf, Ne, List.filterMap_eq_nil_iff]
  simp only [Catalog.get?_eq_none_iff, not_forall, not_not, exists_prop]

/-- Spreads exist if that of each key with counts does. -/
theorem exists_spreads (h : ∀ k, countsOf ms k ≠ [] → ∃ s : α, spreadOf ms n k = .ok s) :
    ∃ sp : Catalog String α, spreads ms n = .ok sp := by
  have hentry : ∀ k ∈ (ms.flatMap Catalog.keys).eraseDups,
      ∃ e : String × α, (do return (k, ← spreadOf ms n k)) = .ok e := by
    intro k hk
    obtain ⟨s, hs⟩ := h k ((mem_keys_iff k).mp hk)
    exact ⟨(k, s), Run.bind_eq_ok.mpr ⟨s, hs, rfl⟩⟩
  obtain ⟨es, hes⟩ := Run.exists_mapM hentry
  exact ⟨⟨es⟩, Run.bind_eq_ok.mpr ⟨es, hes, rfl⟩⟩

/-- The spread of a key with counts is that of its counts; a key without counts has none. -/
theorem get?_spreads {sp : Catalog String α} (h : spreads ms n = .ok sp) (k : String) :
    (countsOf ms k ≠ [] → ∃ s, spreadOf ms n k = .ok s ∧ sp.get? k = some s) ∧
      (countsOf ms k = [] → sp.get? k = none) := by
  obtain ⟨es, hes, hsp⟩ := Run.bind_eq_ok.mp h
  obtain rfl := Except.ok.inj hsp
  have hget := Catalog.get?_of_mapM hes k
  rw [mem_keys_iff, not_not] at hget
  exact hget

end CellCounts

namespace Coverage

variable {α : Type} [Scalar α]

/-- The spread of an entity over the tube, zero if it touches no cell of it. -/
def spread (g : Grid Float) (ps : List Ping) (cells : List Cell) (k : String) :
    Except ArithmeticFault α :=
  if tubeTouched g ps cells k = [] then .ok Scalar.zero
  else CellCounts.spreadOfCounts ((tubeTouched g ps cells k).map fun c => (visits g ps k c : ℤ))
    cells.length

variable {g : Grid Float} {box : List Ping} (tube : List Ping) {cells : List Cell}

theorem getD_spreads {sp : Catalog String α} (h : (survey g box tube cells).spreads = .ok sp)
    (k : String) : spread g box cells k = .ok (sp.getD k Scalar.zero) := by
  obtain ⟨hsome, hnone⟩ := CellCounts.get?_spreads h k
  rw [CellCounts.spreadOf_eq, countsOf_tubeMaps] at hsome
  rw [countsOf_tubeMaps] at hnone
  rw [spread]
  by_cases hempty : tubeTouched g box cells k = []
  · rw [if_pos hempty, Catalog.getD, hnone (by rw [hempty]; rfl)]
    rfl
  · obtain ⟨s, hs, hget⟩ := hsome (by simpa using hempty)
    rw [if_neg hempty, Catalog.getD, hget]
    exact hs

/-- The spreads exist if that of each entity does. -/
theorem exists_spreads (h : ∀ k, tubeTouched g box cells k ≠ [] →
    ∃ s : α, spread g box cells k = .ok s) :
    ∃ sp : Catalog String α, (survey g box tube cells).spreads = .ok sp := by
  refine CellCounts.exists_spreads fun k hk => ?_
  rw [countsOf_tubeMaps] at hk
  have hne : tubeTouched g box cells k ≠ [] := by simpa using hk
  obtain ⟨s, hs⟩ := h k hne
  rw [spread, if_neg hne] at hs
  exact ⟨s, by rw [CellCounts.spreadOf_eq, countsOf_tubeMaps]; exact hs⟩

end Coverage

end Corridor
