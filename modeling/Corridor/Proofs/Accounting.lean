import Corridor.Proofs.Number.Elementary
import Corridor.Proofs.SetLevel

/-!
# Accounts of a Ranking

Every observation lies in one cell of the grid, so an entity touches no more cells than it has
observations or than the grid has cells. A tube that is cut out of the box holds no observation
that the box does not, and no cell that the grid does not. The counts of a standing therefore
bound one another, and the scores that are quotients of them keep to their ranges.

## Main results

* `Standing.Counts`, `Standing.Accounts`: the bounds between the counts of a standing.
* `Standing.Counts.exists_coverage`, `Standing.Counts.exists_idf`: the scores that follow.
* `Route.IsCounted.counts`: the counts of an entity bound one another.
* `Route.rank_accounts`: all bounds hold if the tube is cut out of the box.
-/

namespace Corridor

open Double

/-! ### Cells of a grid -/

namespace Grid

variable {extent : Extent} {divisions : Datum} {g : Grid Float} {n : ℕ}

theorem divisionsOf_pos (h : divisionsOf divisions = .ok n) : 0 < n := by
  cases divisions with
  | whole z =>
      rw [divisionsOf] at h
      split_ifs at h with hz
      rw [← Except.ok.inj h]
      omega
  | _ => cases h

/-- The divisions of a grid that was built are those that were given. -/
theorem divisions_of_build (h : build extent divisions = .ok g) :
    divisionsOf divisions = .ok g.divisions := by
  obtain ⟨n, hn, h⟩ := Run.bind_eq_ok.mp h
  obtain ⟨e, -, h⟩ := Run.bind_eq_ok.mp h
  have h := Run.mapError_eq_ok.mp h
  obtain ⟨lonAxis, -, h⟩ := Run.bind_eq_ok.mp h
  obtain ⟨latAxis, -, h⟩ := Run.bind_eq_ok.mp h
  rw [hn, ← Except.ok.inj h]

/-- Every ping lies in a cell of the grid. -/
theorem cellOf_mem_cells (hn : 0 < g.divisions) (p : Ping) : g.cellOf p ∈ g.cells :=
  (mem_cells g).mpr ⟨index_lt _ hn _, index_lt _ hn _⟩

end Grid

namespace Coverage

variable {g : Grid Float}

/-- An entity touches no more cells than the grid has. -/
theorem card_touched_le_size (hn : 0 < g.divisions) (ps : List Ping) (k : String) :
    (touched g ps k).card ≤ g.size := by
  have hsub : touched g ps k ⊆ g.cells.toFinset := fun c hc => by
    obtain ⟨p, -, -, rfl⟩ := mem_touched.mp hc
    exact List.mem_toFinset.mpr (Grid.cellOf_mem_cells hn p)
  rw [← Grid.length_cells, ← List.toFinset_card_of_nodup (Grid.nodup_cells g)]
  exact Finset.card_le_card hsub

/-- An entity touches no more cells than it has pings. -/
theorem card_touched_le_count (g : Grid Float) (ps : List Ping) (k : String) :
    (touched g ps k).card ≤ (ps.map Ping.key).count k := by
  rw [touched, List.count, List.countP_map, List.countP_eq_length_filter]
  exact (List.toFinset_card_le _).trans_eq (List.length_map _)

/-- An entity that was observed touches a cell. -/
theorem card_touched_pos (g : Grid Float) {ps : List Ping} {k : String}
    (h : k ∈ ps.map Ping.key) : 0 < (touched g ps k).card := by
  obtain ⟨p, hp, rfl⟩ := List.mem_map.mp h
  exact Finset.card_pos.mpr ⟨g.cellOf p, mem_touched.mpr ⟨p, hp, rfl, rfl⟩⟩

end Coverage

namespace PingCollection

theorem eq_of_pings {c d : PingCollection} (h : c.pings = d.pings) : c = d :=
  congrArg mk h

/-- What is cut out of a collection occurs in it at least as often. -/
theorem count_keys_within_le (c : PingCollection) (shapes : List (Option Shape)) (k : String) :
    ((c.within shapes).pings.map Ping.key).count k ≤ (c.pings.map Ping.key).count k := by
  rw [within, count_keys_ofList, List.count, List.countP_map]
  refine (List.filter_sublist.countP_le).trans (List.countP_mono_left fun p _ hp => ?_)
  exact (Bool.and_eq_true_iff.mp hp).2

end PingCollection

/-! ### Scores over given elementary functions -/

/-- A score of a standing, over given elementary functions of doubles. -/
def Standing.score (s : Standing Float) (e : Elementary) (score : Score) :
    Except ArithmeticFault Float :=
  @Score.of Float e.scalar score s

namespace Standing

/-- A run takes the elementary functions of its platform. -/
theorem score_native (s : Standing Float) (score : Score) : s.score .native score = score.of s :=
  rfl

/-- The bounds between the counts of a standing on a grid of the given divisions. -/
structure Counts (divisions : ℕ) (s : Standing Float) : Prop where
  divisions_eq : s.divisions = divisions
  boxCells_nonneg : 0 ≤ s.boxCells
  boxCells_le : s.boxCells ≤ min s.boxCount (divisions * divisions)
  tubeCells_nonneg : 0 ≤ s.tubeCells
  tubeCells_le : s.tubeCells ≤ min s.boxCells s.tubeSize
  tubeCount_nonneg : 0 ≤ s.tubeCount
  tubeSize_nonneg : 0 ≤ s.tubeSize
  tubeSize_le : s.tubeSize ≤ divisions * divisions

/-- What holds beside them where the tube is cut out of the box. -/
structure Accounts (divisions : ℕ) (s : Standing Float) : Prop extends s.Counts divisions where
  one_le_boxCells : 1 ≤ s.boxCells
  tubeCount_le : s.tubeCount ≤ s.boxCount

namespace Counts

variable {s : Standing Float} {divisions : ℕ} (h : s.Counts divisions)
include h

/-- The share of the tube that is covered lies between zero and one. -/
theorem exists_coverage (e : Elementary) :
    ∃ x, s.score e .coverage = .ok x ∧ 0 ≤ x ∧ x ≤ 1 := by
  have hscore : s.score e .coverage =
      if s.tubeSize = 0 then .ok 0 else e.scalar.quotient s.tubeCells s.tubeSize := rfl
  rw [hscore]
  by_cases h0 : s.tubeSize = 0
  · exact ⟨0, if_pos h0, zero_nonneg, one_nonneg⟩
  · have hpos : 0 < s.tubeSize := lt_of_le_of_ne h.tubeSize_nonneg (Ne.symm h0)
    have hle : s.tubeCells ≤ s.tubeSize := h.tubeCells_le.trans (min_le_right _ _)
    have hlt : s.tubeCells < quotientBound * s.tubeSize :=
      hle.trans_lt (lt_mul_of_one_lt_left hpos (by exact_mod_cast one_lt_quotientBound))
    obtain ⟨x, hx, -, -, hunit, -⟩ := Elementary.exists_quotient e h.tubeCells_nonneg hpos hlt
    exact ⟨x, (if_neg h0).trans hx, hunit hle⟩

omit h in
/-- The inverse document frequency of an entity that touches a cell. -/
theorem score_idf (e : Elementary) (h0 : s.boxCells ≠ 0) : s.score e .idf =
    e.scalar.quotient (s.divisions * s.divisions) s.boxCells >>= e.logarithm :=
  if_neg h0

variable (hpos : 0 < s.boxCells)
include hpos

/-- The inverse document frequency is at least zero, and small, as long as the cells of the grid
per cell touched have a double. -/
theorem exists_idf {e : Elementary} (he : e.IsFaithful)
    (hfit : (divisions * divisions : ℤ) < quotientBound * s.boxCells) :
    ∃ x, s.score e .idf = .ok x ∧ UpTo 10 x := by
  have hle : s.boxCells ≤ divisions * divisions := h.boxCells_le.trans (min_le_right _ _)
  obtain ⟨q, hq, hfinite, hone, -⟩ := Elementary.exists_quotient e (hpos.le.trans hle) hpos hfit
  obtain ⟨x, hx, hrange⟩ := Elementary.exists_logarithm he hfinite (hone hle)
  refine ⟨x, ?_, hrange⟩
  rw [score_idf e hpos.ne', h.divisions_eq]
  exact Run.bind_eq_ok.mpr ⟨q, hq, hx⟩

/-- Beyond that it is refused. -/
theorem idf_eq_error (e : Elementary)
    (hfit : quotientBound * s.boxCells ≤ (divisions * divisions : ℤ)) :
    s.score e .idf = .error .quotientTooLarge := by
  have hsize : (0 : ℤ) ≤ divisions * divisions := by positivity
  rw [score_idf e hpos.ne', h.divisions_eq]
  exact Run.bind_eq_error.mpr (.inl (Elementary.quotient_eq_error e hsize hpos hfit))

end Counts

end Standing

/-! ### Accounts of every standing -/

namespace Route

variable {r : Route} {grid : Grid Float} {cells : List Cell} {k : String} {s : Standing Float}
  {region shapes : List (Option Shape)} {extent : Extent} {divisions : Datum}

/-- The counts of an entity bound one another. -/
theorem IsCounted.counts (h : r.IsCounted grid cells k s)
    (hgrid : Grid.build extent divisions = .ok grid)
    (hcells : grid.cellsCovered shapes = .ok cells) : s.Counts grid.divisions := by
  have hn := Grid.divisionsOf_pos (Grid.divisions_of_build hgrid)
  obtain ⟨cells', hcells', hnodup, hmem⟩ := Grid.exists_cellsCovered hgrid shapes
  obtain rfl := Except.ok.inj (hcells'.symm.trans hcells)
  have hsize : (grid.divisions * grid.divisions : ℤ) = grid.size := by rw [Grid.size, Nat.cast_mul]
  have htubeSize : cells'.length ≤ grid.size := by
    rw [← List.toFinset_card_of_nodup hnodup]
    exact Grid.card_le_size fun c hc => (hmem c).mp (List.mem_toFinset.mp hc)
  have hfilter := Finset.card_filter_le (Coverage.touched grid r.box.pings k) (· ∈ cells')
  have hinside : ((Coverage.touched grid r.box.pings k).filter (· ∈ cells')).card ≤
      cells'.length := by
    rw [← List.toFinset_card_of_nodup hnodup]
    refine Finset.card_le_card fun c hc => ?_
    exact List.mem_toFinset.mpr (Finset.mem_filter.mp hc).2
  have hbox := Coverage.card_touched_le_count grid r.box.pings k
  have hgridded := Coverage.card_touched_le_size hn r.box.pings k
  refine ⟨h.divisions, ?_, ?_, ?_, ?_, ?_, ?_, ?_⟩
  · rw [h.boxCells]
    exact Int.natCast_nonneg _
  · rw [h.boxCells, h.boxCount, hsize]
    exact_mod_cast le_min hbox hgridded
  · rw [h.tubeCells]
    exact Int.natCast_nonneg _
  · rw [h.tubeCells, h.boxCells, h.tubeSize]
    exact_mod_cast le_min hfilter hinside
  · rw [h.tubeCount]
    exact Int.natCast_nonneg _
  · rw [h.tubeSize]
    exact Int.natCast_nonneg _
  · rw [h.tubeSize, hsize]
    exact_mod_cast htubeSize

/-- An entity that was observed in the box touches a cell. -/
theorem IsCounted.one_le_boxCells (h : r.IsCounted grid cells k s)
    (hk : k ∈ r.box.pings.map Ping.key) : 1 ≤ s.boxCells := by
  rw [h.boxCells]
  exact_mod_cast Coverage.card_touched_pos grid hk

/-- An entity is no more often in a tube that is cut out of the box than in the box. -/
theorem IsCounted.tubeCount_le (h : r.IsCounted grid cells k s)
    (htube : r.tube = r.box.within region) : s.tubeCount ≤ s.boxCount := by
  rw [h.tubeCount, h.boxCount, htube]
  exact_mod_cast r.box.count_keys_within_le region k

/-- The keys of a ranking are those of the box if the tube is cut out of it. -/
theorem IsTally.mem_boxKeys {m : Rankings Float} (h : r.IsTally grid cells m)
    (htube : r.tube = r.box.within region) (hk : k ∈ m.keys) : k ∈ r.box.pings.map Ping.key := by
  rcases (h.mem_keys k).mp hk with hseen | hbox
  · rw [← List.count_pos_iff, htube] at hseen
    exact List.count_pos_iff.mp (hseen.trans_le (r.box.count_keys_within_le region k))
  · exact hbox

/-- An entity of the tube or the box has a standing in a ranking, which counts its pings. -/
theorem exists_isCounted [Geodesy] {m : Rankings Float}
    (h : (Run.start (r.rank extent shapes divisions)).1 = .ok m)
    (hgrid : Grid.build extent (orConfigured divisions r.settings.gridDivisions) = .ok grid)
    (hcells : grid.cellsCovered shapes = .ok cells)
    (hk : k ∈ r.tube.pings.map Ping.key ∨ k ∈ r.box.pings.map Ping.key) :
    ∃ s ∈ m.values, r.IsCounted grid cells k s := by
  obtain ⟨grid', cells', hgrid', hcells', htally⟩ := isTally_of_rank h
  obtain rfl := Except.ok.inj (hgrid.symm.trans hgrid')
  obtain rfl := Except.ok.inj (hcells.symm.trans hcells')
  obtain ⟨⟨k, s⟩, hentry, rfl⟩ := List.mem_map.mp ((htally.mem_keys k).mpr hk)
  exact ⟨s, List.mem_map.mpr ⟨_, hentry, rfl⟩,
    htally.counted k s ((Catalog.mem_entries htally.nodup).mp hentry)⟩

/-- The accounts of each standing of a ranking, if the tube is cut out of the box. -/
theorem IsTally.accounts {m : Rankings Float} (h : r.IsTally grid cells m)
    (htube : r.tube = r.box.within region) (hgrid : Grid.build extent divisions = .ok grid)
    (hcells : grid.cellsCovered shapes = .ok cells) (hs : s ∈ m.values) :
    s.Accounts grid.divisions := by
  obtain ⟨⟨k, s⟩, hentry, rfl⟩ := List.mem_map.mp hs
  have hcounted := h.counted k s ((Catalog.mem_entries h.nodup).mp hentry)
  have hkey := h.mem_boxKeys htube (List.mem_map.mpr ⟨_, hentry, rfl⟩)
  exact ⟨hcounted.counts hgrid hcells, hcounted.one_le_boxCells hkey, hcounted.tubeCount_le htube⟩

/-- **The accounts of a ranking.** If the tube is cut out of the box, the counts of every standing
bound one another; its share of the tube lies between zero and one, and its inverse document
frequency is at least zero as long as the cells of the grid per cell touched have a double, beyond
which it is refused. -/
theorem rank_accounts [Geodesy] (r : Route) {e : Elementary} (he : e.IsFaithful)
    {region shapes : List (Option Shape)} {extent : Extent} {divisions : Datum} {m : Rankings Float}
    (htube : r.tube = r.box.within region)
    (h : (Run.start (r.rank extent shapes divisions)).1 = .ok m) :
    ∃ n : ℕ, Grid.divisionsOf (orConfigured divisions r.settings.gridDivisions) = .ok n ∧
      ∀ s ∈ m.values, s.Accounts n ∧
        (∃ x, s.score e .coverage = .ok x ∧ 0 ≤ x ∧ x ≤ 1) ∧
        ((n * n : ℤ) < quotientBound * s.boxCells → ∃ x, s.score e .idf = .ok x ∧ 0 ≤ x) ∧
        (quotientBound * s.boxCells ≤ (n * n : ℤ) →
          s.score e .idf = .error .quotientTooLarge) := by
  obtain ⟨grid, cells, hgrid, hcells, htally⟩ := isTally_of_rank h
  refine ⟨grid.divisions, Grid.divisions_of_build hgrid, fun s hs => ?_⟩
  have haccounts := htally.accounts htube hgrid hcells hs
  have hpos : 0 < s.boxCells := haccounts.one_le_boxCells
  refine ⟨haccounts, haccounts.exists_coverage e, fun hfit => ?_, haccounts.idf_eq_error hpos e⟩
  obtain ⟨x, hx, hrange⟩ := haccounts.exists_idf hpos he hfit
  exact ⟨x, hx, hrange.1⟩

/-! ### Samples -/

/-- The tube of the sample is cut out of its box. -/
theorem sample_within : sample.tube = sample.box.within [some (Shape.box 0 0 1 1)] :=
  PingCollection.eq_of_pings (by decide +kernel)

/-- The sample has a ranking. -/
theorem exists_sampleRanking : ∃ m, (Run.start (sample.rank (.bounds [0, 0, 2, 2])
    [some (Shape.box 0 0 1 1)] (.whole (2 : ℕ)))).1 = .ok m := by
  obtain ⟨grid, cells, hgrid, hcovered, hnodup, hlength⟩ := exists_sampleTube
  have hbox : sample.box.IsValid := by
    dsimp only [sample]
    exact PingCollection.isValid_ofList _
  refine exists_rank sample_scoresBy hbox sample_tellable hgrid hcovered hnodup (j := 1) (m := 0)
    (by decide +kernel) hlength.le (by decide) fun k hk scores h => ?_
  rw [sample_keys, Finset.mem_singleton] at hk
  subst hk
  rw [sample_scores h]
  exact sumsFit_one

theorem rank_accounts_sample : Elementary.exact.IsFaithful ∧
    sample.tube = sample.box.within [some (Shape.box 0 0 1 1)] ∧
    ∃ m, (Run.start (sample.rank (.bounds [0, 0, 2, 2]) [some (Shape.box 0 0 1 1)]
        (.whole (2 : ℕ)))).1 = .ok m ∧ m.values ≠ [] ∧
      ∀ s ∈ m.values, s.Accounts 2 ∧
        (∃ x, s.score .exact .coverage = .ok x ∧ 0 ≤ x ∧ x ≤ 1) ∧
        ∃ x, s.score .exact .idf = .ok x ∧ 0 ≤ x := by
  obtain ⟨m, hm⟩ := exists_sampleRanking
  obtain ⟨n, hn, hall⟩ := rank_accounts sample Elementary.isFaithful_exact sample_within hm
  obtain rfl : (2 : ℕ) = n := Except.ok.inj hn
  obtain ⟨grid, cells, -, -, htally⟩ := isTally_of_rank hm
  have hkey : "a" ∈ m.keys := (htally.mem_keys "a").mpr (.inr (by decide +kernel))
  refine ⟨Elementary.isFaithful_exact, sample_within, m, hm, ?_, fun s hs => ?_⟩
  · obtain ⟨e, he, -⟩ := List.mem_map.mp hkey
    exact List.ne_nil_of_mem (List.mem_map.mpr ⟨e, he, rfl⟩)
  · obtain ⟨haccounts, hcoverage, hidf, -⟩ := hall s hs
    refine ⟨haccounts, hcoverage, hidf ?_⟩
    have hbound : (2 ^ 3 : ℤ) ≤ quotientBound := by
      exact_mod_cast two_pow_le_quotientBound (k := 3) (by decide)
    calc ((2 : ℕ) * (2 : ℕ) : ℤ) < 2 ^ 3 * 1 := by norm_num
      _ ≤ quotientBound * s.boxCells :=
        mul_le_mul hbound haccounts.one_le_boxCells zero_le_one (Int.natCast_nonneg _)

/-- One observation at the corner of an envelope of no extent. -/
def vast : Route := { sample with box := .ofList [⟨0, "a", 0, 0, none⟩], tube := .empty }

/-- So many divisions that the cells of the grid have no double. -/
def vastDivisions : ℕ := 2 ^ 512

theorem quotientBound_le_vastDivisions : quotientBound ≤ vastDivisions * vastDivisions := by
  have hexp : 512 + 512 = 1024 := rfl
  have hsquare := pow_add 2 512 512
  rw [hexp] at hsquare
  unfold quotientBound vastDivisions
  exact (Nat.sub_le _ _).trans hsquare.le

theorem vastDivisions_pos : 0 < vastDivisions := by
  unfold vastDivisions
  exact pow_pos two_pos _

/-- There is a grid of so many divisions. -/
theorem exists_vastGrid : ∃ grid : Grid Float,
    Grid.build (.bounds [0, 0, 0, 0]) (.whole vastDivisions) = .ok grid ∧
      grid.divisions = vastDivisions := by
  have hle : (vastDivisions : ℤ).natAbs ≤ 2 ^ 512 := by
    unfold vastDivisions
    exact (Int.natAbs_natCast _).le
  obtain ⟨x, hx, -⟩ := ofInt_eq_ok (by decide) hle
  exact ⟨_, Grid.build_bounds vastDivisions_pos (by decide) (by decide) hx, rfl⟩

/-- On a grid of very many cells, the inverse document frequency of an entity in one of them is
refused, though the tube is cut out of the box and the scorer answers. -/
theorem rank_accounts_vast : vast.tube = vast.box.within [] ∧
    vast.scorer.ScoresBy (fun _ _ => 1) ∧
    ∃ m s, (Run.start (vast.rank (.bounds [0, 0, 0, 0]) [] (.whole vastDivisions))).1 = .ok m ∧
      s ∈ m.values ∧ Score.idf.of s = .error .quotientTooLarge := by
  have htube : vast.tube = vast.box.within [] := PingCollection.eq_of_pings (by decide +kernel)
  have hbox : vast.box.IsValid := by
    dsimp only [vast]
    exact PingCollection.isValid_ofList _
  obtain ⟨grid, hgrid, hdivisions⟩ := exists_vastGrid
  have hcells : grid.cellsCovered [] = .ok [] := rfl
  have hkeys : vast.tubeKeys ∩ vast.boxKeys = ∅ := Finset.empty_inter _
  obtain ⟨m, hm⟩ : ∃ m, (Run.start (vast.rank (.bounds [0, 0, 0, 0]) []
      (.whole vastDivisions))).1 = .ok m := by
    refine exists_rank sample_scoresBy hbox (by decide +kernel) hgrid hcells List.nodup_nil (j := 0)
      (m := 0) (by decide +kernel) (by decide) (by decide) fun k hk => ?_
    rw [hkeys] at hk
    exact absurd hk (Finset.notMem_empty k)
  have hkey : "a" ∈ vast.box.pings.map Ping.key := by decide +kernel
  obtain ⟨s, hmem, hcounted⟩ := exists_isCounted hm hgrid hcells (.inr hkey)
  have hcounts := hcounted.counts hgrid hcells
  have hseen := hcounted.one_le_boxCells hkey
  have hone : s.boxCells = 1 := by
    have hle := hcounts.boxCells_le.trans (min_le_left _ _)
    have hcount : s.boxCount = 1 := hcounted.boxCount.trans (by decide +kernel)
    omega
  refine ⟨htube, sample_scoresBy, m, s, hm, hmem, ?_⟩
  rw [← Standing.score_native]
  refine hcounts.idf_eq_error hseen .native ?_
  rw [hone, mul_one, hdivisions]
  exact_mod_cast quotientBound_le_vastDivisions

end Route

end Corridor
