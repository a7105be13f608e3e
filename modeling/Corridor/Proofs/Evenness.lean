import Corridor.Proofs.Formulas
import Corridor.Proofs.SetLevel

/-!
# Evenness

The evenness of an entity is the exponential of how far its counts spread over the tube, in units of
how densely it was observed there, taken negative. The two come from different places: the density
is that of the pings in the tube, and the counts are those of the pings in the box, of which a
survey has none for the cells where the entity is absent. Over the real numbers the spread is the
deviation of the counts over all cells of the tube, these included, so the evenness is one just if
the counts are the same or if there is no density.

## Main results

* `Route.rank_evenness`: the range of the evenness in a ranking, and when it is one.
-/

namespace Corridor.Route

/-- **Evenness one means evenly spread.** In a ranking over the real numbers, the evenness of an
entity is positive and at most one; and it is one if and only if the entity has no pings in the
tube, or no cell belongs to the tube, or there are as many of its pings in the box in one cell of
the tube as in any other. -/
theorem rank_evenness (r : Route) (cap : ℝ) {evidence : Run (Catalog String (Evidence ℝ))}
    {extent : Extent} {shapes : List (Option Shape)} {divisions : Datum} {m : Rankings ℝ}
    (h : (Run.start (r.rankOver evidence extent shapes divisions)).1 = .ok m) :
    ∃ (grid : Grid Float) (tube : Finset Cell),
      Grid.build extent (orConfigured divisions r.settings.gridDivisions) = .ok grid ∧
      (∀ c, c ∈ tube ↔ grid.IsTubeCell shapes c) ∧ m.keys.Nodup ∧ ∀ k s, m.get? k = some s →
        s.tubeCount = (r.tube.pings.map Ping.key).count k ∧ s.tubeSize = tube.card ∧
        ∃ v, s.HasScore cap .evenness v ∧ 0 < v ∧ v ≤ 1 ∧
          (v = 1 ↔ s.tubeCount = 0 ∨ s.tubeSize = 0 ∨ ∀ c ∈ tube, ∀ d ∈ tube,
            Coverage.visits grid r.box.pings k c = Coverage.visits grid r.box.pings k d) := by
  obtain ⟨grid, cells, sp, ev, -, hgrid, hcells, hsp, -, rfl⟩ := parts_of_rankOver h
  obtain ⟨cells', hcells', hnodup, hmem⟩ := Grid.exists_cellsCovered hgrid shapes
  obtain rfl := Except.ok.inj (hcells.symm.trans hcells')
  refine ⟨grid, cells.toFinset, hgrid, fun c => List.mem_toFinset.trans (hmem c),
    Catalog.nodup_keys_tabulate _ _, fun k s hs => ?_⟩
  have hstanding := Coverage.eq_of_get?_standings hs
  have hcount : s.tubeCount = (r.tube.pings.map Ping.key).count k := by rw [hstanding]
  have hsize : s.tubeSize = cells.toFinset.card := by
    rw [hstanding, List.toFinset_card_of_nodup hnodup]
  have hspread : s.spread = Stats.populationDeviation cells.toFinset
      fun c => (Coverage.visits grid r.box.pings k c : ℝ) := by
    rw [hstanding]
    exact Coverage.getD_spreads_real r.tube.pings hsp hnodup (fun c => List.mem_toFinset.symm) k
  have hspread0 : 0 ≤ s.spread := hspread ▸ Real.sqrt_nonneg _
  have hdensity := s.perTubeCell_nonneg (hcount ▸ Int.natCast_nonneg _)
    (hsize ▸ Int.natCast_nonneg _)
  refine ⟨hcount, hsize, s.exactEvenness, Standing.hasScore_evenness hdensity,
    s.exactEvenness_pos, Standing.exactEvenness_le_one hspread0 hdensity, ?_⟩
  rw [Standing.exactEvenness_eq_one_iff, hspread, Stats.populationDeviation_eq_zero_iff]
  simp only [Nat.cast_inj]

/-- A route with a tube of two cells. Of two entities that were seen in both, the first was seen in
one of them twice. -/
def uneven : Route where
  scorer := fun _ _ _ => .ok (.real 1)
  box := .ofList [⟨0, "a", 0.5, 0.5, none⟩, ⟨1, "a", 0.5, 0.5, none⟩, ⟨2, "a", 1.5, 0.5, none⟩,
    ⟨3, "b", 0.5, 0.5, none⟩, ⟨4, "b", 1.5, 0.5, none⟩]
  tube := .ofList [⟨0, "a", 0.5, 0.5, none⟩, ⟨3, "b", 0.5, 0.5, none⟩]
  settings := Settings.preset

/-- How often the two entities were seen in the cells of the tube. -/
theorem visits_uneven {grid : Grid Float} {cells : List Cell}
    (hgrid : Grid.build (.bounds [0, 0, 2, 2]) (.whole (2 : ℕ)) = .ok grid)
    (hcells : grid.cellsCovered [some (Shape.box 0 0 2 1)] = .ok cells) :
    cells.map (Coverage.visits grid uneven.box.pings "a") = [2, 1] ∧
      cells.map (Coverage.visits grid uneven.box.pings "b") = [1, 1] := by
  have hvisits : (Grid.build (.bounds [0, 0, 2, 2]) (.whole (2 : ℕ)) >>= fun g =>
      (Grid.cellsCovered g [some (Shape.box 0 0 2 1)]).map fun cs =>
        (cs.map (Coverage.visits g uneven.box.pings "a"),
          cs.map (Coverage.visits g uneven.box.pings "b"))).toOption =
      some ([2, 1], [1, 1]) := by
    decide +kernel
  rw [Run.bind_eq_ok.mpr ⟨grid, hgrid, congrArg (Except.map _) hcells⟩] at hvisits
  exact Prod.ext_iff.mp (Option.some.inj hvisits)

/-- Both entities are ranked. -/
theorem exists_rank_uneven : ∃ grid cells m s t,
    Grid.build (.bounds [0, 0, 2, 2]) (.whole (2 : ℕ)) = .ok grid ∧
    grid.cellsCovered [some (Shape.box 0 0 2 1)] = .ok cells ∧
    (Run.start (uneven.rankOver (α := ℝ) (pure Catalog.empty) (.bounds [0, 0, 2, 2])
      [some (Shape.box 0 0 2 1)] (.whole (2 : ℕ)))).1 = .ok m ∧
    m.get? "a" = some s ∧ m.get? "b" = some t := by
  obtain ⟨grid, hgrid, -⟩ := exists_sampleGrid
  obtain ⟨cells, hcells, hnodup, -⟩ := Grid.exists_cellsCovered hgrid [some (Shape.box 0 0 2 1)]
  obtain ⟨sp, hsp⟩ := Coverage.exists_spreads (α := ℝ) uneven.tube.pings fun k _ =>
    ⟨_, Coverage.spread_real grid uneven.box.pings k hnodup fun c => List.mem_toFinset.symm⟩
  have hfinite : ∀ p ∈ uneven.box.pings, p.position.isFinite = true := by decide +kernel
  have hm := (uneven.rankOver_yields (Run.Yields.pure Catalog.empty) (.bounds [0, 0, 2, 2])
    [some (Shape.box 0 0 2 1)] (.whole (2 : ℕ)) Trace.empty).trans
      (resultOver_eq_ok hgrid hcells hfinite hsp rfl)
  have hkeys : "a" ∈ uneven.tube.pings.map Ping.key ∧ "b" ∈ uneven.tube.pings.map Ping.key := by
    decide +kernel
  obtain ⟨s, hs⟩ : ∃ s, ((Coverage.survey grid uneven.box.pings uneven.tube.pings cells).standings
      sp Catalog.empty).get? "a" = some s := Coverage.exists_get?_standings (.inl hkeys.1)
  obtain ⟨t, ht⟩ : ∃ t, ((Coverage.survey grid uneven.box.pings uneven.tube.pings cells).standings
      sp Catalog.empty).get? "b" = some t := Coverage.exists_get?_standings (.inl hkeys.2)
  exact ⟨grid, cells, _, s, t, hgrid, hcells, hm, hs, ht⟩

/-- The first entity is not evenly spread over the tube, and the second one is. -/
theorem rank_evenness_sample : ∃ m s t v,
    (Run.start (uneven.rankOver (pure Catalog.empty) (.bounds [0, 0, 2, 2])
        [some (Shape.box 0 0 2 1)] (.whole (2 : ℕ)))).1 = .ok m ∧
      m.get? "a" = some s ∧ s.HasScore 1 .evenness v ∧ 0 < v ∧ v < 1 ∧
      m.get? "b" = some t ∧ t.tubeCount = 1 ∧ t.tubeSize = 2 ∧ t.HasScore 1 .evenness 1 := by
  obtain ⟨grid, cells, m, s, t, hgrid, hcells, hm, hs, ht⟩ := exists_rank_uneven
  obtain ⟨cells', hcells', hnodup, hmem⟩ :=
    Grid.exists_cellsCovered hgrid [some (Shape.box 0 0 2 1)]
  obtain rfl := Except.ok.inj (hcells.symm.trans hcells')
  obtain ⟨hvisits, hvisits'⟩ := visits_uneven hgrid hcells
  obtain ⟨grid', tube, hgrid', htube, -, hall⟩ := rank_evenness uneven 1 hm
  obtain rfl := Except.ok.inj (hgrid.symm.trans hgrid')
  have hcell : ∀ c, c ∈ tube ↔ c ∈ cells := fun c => (htube c).trans (hmem c).symm
  have hcard : tube.card = 2 := by
    rw [Finset.ext (fun c => (hcell c).trans List.mem_toFinset.symm),
      List.toFinset_card_of_nodup hnodup, ← List.length_map, hvisits]
    rfl
  obtain ⟨hcount, hsize, v, hv, hpos, hle, hone⟩ := hall "a" s hs
  obtain ⟨hcount', hsize', w, hw, -, -, hone'⟩ := hall "b" t ht
  have hcount_a : s.tubeCount = 1 := hcount.trans (by decide +kernel)
  have hcount_b : t.tubeCount = 1 := hcount'.trans (by decide +kernel)
  have huneven : v ≠ 1 := by
    rw [Ne, hone, hcount_a, hsize, hcard]
    rintro (h | h | hall)
    · cases h
    · cases h
    · have hsame : ∀ n ∈ cells.map (Coverage.visits grid uneven.box.pings "a"),
          ∀ n' ∈ cells.map (Coverage.visits grid uneven.box.pings "a"), n = n' := by
        simp only [List.forall_mem_map]
        exact fun c hc d hd => hall c ((hcell c).mpr hc) d ((hcell d).mpr hd)
      rw [hvisits] at hsame
      exact absurd (hsame 2 (by simp) 1 (by simp)) (by decide)
  have heven : ∀ c ∈ cells, Coverage.visits grid uneven.box.pings "b" c = 1 := by
    rw [← List.forall_mem_map (f := Coverage.visits grid uneven.box.pings "b") (P := (· = 1)),
      hvisits']
    simp
  obtain rfl := hone'.mpr (.inr (.inr fun c hc d hd =>
    (heven c ((hcell c).mp hc)).trans (heven d ((hcell d).mp hd)).symm))
  have hsize_b : t.tubeSize = 2 := by
    rw [hsize', hcard]
    rfl
  exact ⟨m, s, t, v, hm, hs, hv, hpos, lt_of_le_of_ne hle huneven, ht, hcount_b, hsize_b, hw⟩

end Corridor.Route
