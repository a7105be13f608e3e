import Corridor.Proofs.Listing
import Corridor.Proofs.Nesting
import Corridor.Proofs.Settings
import Corridor.Proofs.Undefined

/-!
# Rankings Can Be Paged

Whatever a scorer answers, and however often the standings of an entity are merged, no score of it
is refused: its counts are not negative, it touches no more cells of the tube than of the box, and
its spread is at least zero. These properties hold in a ranking, and merging keeps them; the
quotients, logarithms and exponentials of the scores ask for no more, as long as the counts are in
the range of doubles. With settings that were accepted, there is therefore a page of every ranking.

## Main results

* `Standing.IsSound`: what holds of standings however they are merged.
* `Route.isSound_of_rank`, `Standing.isSound_of_merge`: it holds in a ranking, and is kept.
* `Standing.IsSound.exists_score`: no score is refused.
* `Elementary.isFinite_geometricMean`: the power that a score takes is in range.
* `Listing.exists_page`: there is a page of what rankings are merged to.
-/

namespace Corridor

open Double

/-! ### Bounded counts as doubles -/

namespace Double

/-- A count that is bounded has a double. -/
theorem exists_ofInt {a : ℤ} (ha : 0 ≤ a) (hlt : a < 2 ^ 1023) :
    ∃ x : Float, Scalar.ofInt a = .ok x := by
  have habs : a.natAbs ≤ 2 ^ 1023 := by
    rw [← Int.natAbs_of_nonneg ha] at hlt
    exact_mod_cast hlt.le
  obtain ⟨x, hx, -⟩ := ofInt_eq_ok (by decide) habs
  exact ⟨x, hx⟩

/-- A bounded count has a quotient by every positive one. -/
theorem lt_quotientBound_mul {a b : ℤ} (ha : a < 2 ^ 1023) (hb : 0 < b) :
    a < quotientBound * b := by
  have hbound : (2 ^ 1023 : ℤ) ≤ quotientBound := by
    exact_mod_cast two_pow_le_quotientBound le_rfl
  calc a < 2 ^ 1023 := ha
    _ ≤ quotientBound := hbound
    _ ≤ quotientBound * b := le_mul_of_one_le_right (Int.natCast_nonneg _) hb

/-- One more than a number that is at least zero is positive, even if that is infinite. -/
theorem add_one_pos {x : Float} (hx : 0 ≤ x) : 0 < x + 1 := by
  cases hfinite : x.isFinite with
  | true =>
      exact Double.lt_of_lt_of_le Double.zero_lt_one (Total.add_one_ranges hx hfinite).2
  | false =>
      rw [eq_infinity_of_nonneg hx hfinite]
      decide

end Double

/-! ### Sound standings -/

namespace Standing

/-- What holds of a standing however it was merged, and whatever the scorer answered. -/
structure IsSound (s : Standing Float) : Prop where
  divisions_pos : 0 < s.divisions
  boxCells_nonneg : 0 ≤ s.boxCells
  boxCells_le : s.boxCells ≤ s.boxCount
  tubeCells_nonneg : 0 ≤ s.tubeCells
  tubeCells_le : s.tubeCells ≤ s.boxCells
  tubeCount_nonneg : 0 ≤ s.tubeCount
  tubeSize_nonneg : 0 ≤ s.tubeSize
  spread_nonneg : 0 ≤ s.spread

/-- The counts and the cells of the grid have doubles. -/
structure IsBounded (s : Standing Float) : Prop where
  tubeCount_lt : s.tubeCount < 2 ^ 1023
  boxCount_lt : s.boxCount < 2 ^ 1023
  cells_lt : s.divisions * s.divisions < 2 ^ 1023

/-- A standing in some ranking. -/
def IsRanked [Geodesy] (s : Standing Float) : Prop :=
  ∃ (r : Route) (extent : Extent) (shapes : List (Option Shape)) (divisions : Datum)
    (m : Rankings Float), (Run.start (r.rank extent shapes divisions)).1 = .ok m ∧ s ∈ m.values

/-- Standings in rankings are sound. -/
theorem IsRanked.isSound [Geodesy] {s : Standing Float} (h : s.IsRanked) : s.IsSound := by
  obtain ⟨r, extent, shapes, divisions, m, hm, hs⟩ := h
  obtain ⟨n, hn, hall⟩ := Route.counts_of_rank hm
  obtain ⟨hcounts, hspread⟩ := hall s hs
  constructor
  · rw [hcounts.divisions_eq]
    exact_mod_cast Grid.divisionsOf_pos hn
  · exact hcounts.boxCells_nonneg
  · exact hcounts.boxCells_le.trans (min_le_left _ _)
  · exact hcounts.tubeCells_nonneg
  · exact hcounts.tubeCells_le.trans (min_le_left _ _)
  · exact hcounts.tubeCount_nonneg
  · exact hcounts.tubeSize_nonneg
  · exact hspread

/-- **Merging keeps standings sound.** -/
theorem isSound_of_merge {a b s : Standing Float} (ha : a.IsSound) (hb : b.IsSound)
    (h : a.merge b = .ok s) : s.IsSound := by
  rw [merge] at h
  split_ifs at h
  obtain rfl := Except.ok.inj h
  constructor
  · exact ha.divisions_pos
  · exact add_nonneg ha.boxCells_nonneg hb.boxCells_nonneg
  · exact add_le_add ha.boxCells_le hb.boxCells_le
  · exact add_nonneg ha.tubeCells_nonneg hb.tubeCells_nonneg
  · exact add_le_add ha.tubeCells_le hb.tubeCells_le
  · exact add_nonneg ha.tubeCount_nonneg hb.tubeCount_nonneg
  · exact ha.tubeSize_nonneg
  · -- the squares may be infinite, but neither they nor their sum have a sign
    refine Double.sqrt_nonneg (Double.add_nonneg ?_ ?_)
    · exact Double.mul_self_nonneg (isNaN_of_nonneg ha.spread_nonneg)
    · exact Double.mul_self_nonneg (isNaN_of_nonneg hb.spread_nonneg)

/-- What sound standings are merged to is sound. -/
theorem IsMergeOf.isSound {xs : List (Standing Float)} {s : Standing Float} (h : IsMergeOf xs s)
    (hxs : ∀ x ∈ xs, x.IsSound) : s.IsSound := by
  induction h with
  | single s => exact hxs s (List.mem_singleton_self s)
  | merge _ _ hmerge iha ihb =>
      rw [List.forall_mem_append] at hxs
      exact isSound_of_merge (iha hxs.1) (ihb hxs.2) hmerge

/-! ### Scores of sound standings -/

namespace IsSound

variable {s : Standing Float} (h : s.IsSound) (e : Elementary)
include h

/-- What is counted per cell of the tube. -/
theorem exists_perTubeCell {a : ℤ} (ha : 0 ≤ a) (hlt : a < 2 ^ 1023) :
    ∃ x, (if s.tubeSize = 0 then .ok 0 else e.scalar.quotient a s.tubeSize) = .ok x ∧
      x.isFinite = true := by
  by_cases h0 : s.tubeSize = 0
  · exact ⟨0, if_pos h0, isFinite_zero⟩
  · have hpos : 0 < s.tubeSize := lt_of_le_of_ne h.tubeSize_nonneg (Ne.symm h0)
    obtain ⟨x, hx, hfinite, -⟩ := Elementary.exists_quotient e ha hpos
      (lt_quotientBound_mul hlt hpos)
    exact ⟨x, (if_neg h0).trans hx, hfinite⟩

variable (hb : s.IsBounded)
include hb

/-- The inverse document frequency, which need not be at least zero: cells that were touched in
several rankings count as often, so there may be more of them than the grid has. -/
theorem exists_idf : ∃ x, s.score e .idf = .ok x := by
  by_cases h0 : s.boxCells = 0
  · exact ⟨largest, if_pos h0⟩
  · have hpos : 0 < s.boxCells := lt_of_le_of_ne h.boxCells_nonneg (Ne.symm h0)
    have hcells : 0 < s.divisions * s.divisions := mul_pos h.divisions_pos h.divisions_pos
    obtain ⟨q, hq, -⟩ := Elementary.exists_quotient e hcells.le hpos
      (lt_quotientBound_mul hb.cells_lt hpos)
    have hle : s.boxCells ≤ unitsPerOne := by
      have hunits : (2 ^ 1023 : ℤ) ≤ unitsPerOne := by
        rw [unitsPerOne_eq]
        exact_mod_cast Nat.pow_le_pow_right Nat.two_pos (by decide)
      exact (h.boxCells_le.trans hb.boxCount_lt.le).trans hunits
    have hlog := e.logarithm_of_pos (Elementary.quotient_pos e hcells hpos hle hq)
    exact ⟨_, (Counts.score_idf e h0).trans (Run.bind_eq_ok.mpr ⟨q, hq, hlog⟩)⟩

/-- **No score of a sound standing is refused.** -/
theorem exists_score (score : Score) : ∃ x, s.score e score = .ok x := by
  have hdensity : ∃ d, s.density = .ok d ∧ d.isFinite = true :=
    h.exists_perTubeCell .native h.tubeCount_nonneg hb.tubeCount_lt
  obtain ⟨d, hd, hfinite⟩ := hdensity
  obtain ⟨i, hi⟩ := h.exists_idf e hb
  obtain ⟨y, -, hevenness⟩ := exists_evenness e h.spread_nonneg hd hfinite
  have hcoverage : ∃ c, s.score e .coverage = .ok c := by
    have hlt := (h.tubeCells_le.trans h.boxCells_le).trans_lt hb.boxCount_lt
    obtain ⟨c, hc, -⟩ := h.exists_perTubeCell e h.tubeCells_nonneg hlt
    exact ⟨c, hc⟩
  obtain ⟨c, hc⟩ := hcoverage
  have hplace : ∃ p, s.score e .place = .ok p :=
    ⟨_, PlaceParts.place_eq_ok ⟨hd, hc, hevenness⟩ |>.mpr ⟨i, hi, rfl⟩⟩
  obtain ⟨p, hp⟩ := hplace
  have hboxCount : 0 ≤ s.boxCount := h.boxCells_nonneg.trans h.boxCells_le
  cases score with
  | combined =>
      rw [score_combined]
      split_ifs with hpos
      · have hone := add_one_pos (Double.le_of_lt (of_decide_eq_true hpos))
        exact ⟨_, Run.bind_eq_ok.mpr ⟨p, hp, Run.bind_eq_ok.mpr
          ⟨_, e.logarithm_of_pos hone, rfl⟩⟩⟩
      · exact ⟨0, rfl⟩
  | place => exact ⟨p, hp⟩
  | tfIdf =>
      obtain ⟨t, ht⟩ := exists_ofInt h.tubeCount_nonneg hb.tubeCount_lt
      exact ⟨_, Run.bind_eq_ok.mpr ⟨i, hi, Run.bind_eq_ok.mpr ⟨t, ht, rfl⟩⟩⟩
  | scaledTfIdf => exact ⟨_, (scaledTfIdf_eq_ok hd).mpr ⟨i, hi, rfl⟩⟩
  | idf => exact ⟨i, hi⟩
  | coverage => exact ⟨c, hc⟩
  | evenness => exact ⟨_, hevenness⟩
  | evidenceTotal => exact ⟨_, rfl⟩
  | evidenceMax => exact ⟨_, rfl⟩
  | tubeCount => exact exists_ofInt h.tubeCount_nonneg hb.tubeCount_lt
  | boxCount => exact exists_ofInt hboxCount hb.boxCount_lt

end IsSound

end Standing

/-- The power in a geometric mean is never out of range: where the product is finite, so is its
root, whether or not it exceeds one. -/
theorem Double.Elementary.isFinite_geometricMean {e : Elementary} (he : e.IsFaithful)
    {a b c : Float} (h : 0 ≤ 1 * a * b * c) (hfinite : (1 * a * b * c).isFinite = true) :
    (@Stats.geometricMean Float e.scalar [a, b, c]).isFinite = true := by
  obtain ⟨hthird, hpos, hle⟩ := third_ranges
  rw [geometricMean_eq_root (not_lt_of_le h)]
  exact isFinite_root he hthird hpos hle h hfinite

/-! ### Pages -/

/-- The page that settings ask for is the page by the values of their draft. -/
theorem Settings.IsMadeOf.pageOf_eq {d : Settings.Draft} {settings : Settings}
    (h : settings.IsMadeOf d) {m : Rankings Float} {listed : List String}
    (hsort : Listing.sort m settings.sortField = .ok listed) :
    Listing.pageOf m (d .sortField) (d .skip) (d .maxResults) =
      Listing.pageBySettings m settings := by
  obtain ⟨skip, hskip, hskip'⟩ := h.skip
  obtain ⟨size, hsize, hsize'⟩ := h.maxResults
  rw [of_scoreOf h.sortField, hskip, hsize, ← of_naturalOf hskip', ← of_naturalOf hsize',
    Listing.pageOf_piece hsort, Listing.pageBySettings, hsort]
  rfl

namespace Listing

/-- The keys of a ranking can be sorted by a score that no standing refuses. -/
theorem exists_sort_of_scores {m : Rankings Float} {score : Score}
    (h : ∀ s ∈ m.values, ∃ x, score.of s = .ok x) : ∃ listed, sort m score = .ok listed := by
  have hentry : ∀ e ∈ m.entries, ∃ y,
      (do return (e.1, ← score.of e.2) : Except Fault (String × Float)) = .ok y := by
    intro e he
    obtain ⟨x, hx⟩ := h e.2 (List.mem_map.mpr ⟨e, he, rfl⟩)
    exact ⟨(e.1, x), Run.bind_eq_ok.mpr ⟨x, Run.mapError_eq_ok.mpr hx, rfl⟩⟩
  obtain ⟨es, hes⟩ := Run.exists_mapM hentry
  exact ⟨_, Run.bind_eq_ok.mpr ⟨es, hes, rfl⟩⟩

/-- **Rankings can be paged.** Of standings that are in rankings or merged from such ones, as long
as their counts and the cells of the grid are bounded, no score is refused, over any elementary
functions; the score of settings that were accepted is one of them; and there is a page of every
ranking by such settings, which is the one by the values that they were made of. -/
theorem exists_page [Geodesy] {draft : Settings.Draft} {settings : Settings}
    (hsettings : Settings.ofDraft draft = .ok settings) {m : Rankings Float}
    (hmerged : ∀ s ∈ m.values, ∃ xs, Standing.IsMergeOf xs s ∧ ∀ x ∈ xs, x.IsRanked)
    (hbounded : ∀ s ∈ m.values, s.IsBounded) :
    (∀ s ∈ m.values, ∀ (e : Elementary) (score : Score), ∃ x, s.score e score = .ok x) ∧
      Score.ofDatum (draft .sortField) = .ok settings.sortField ∧
      ∃ listed, pageBySettings m settings = .ok listed ∧
        pageOf m (draft .sortField) (draft .skip) (draft .maxResults) = .ok listed := by
  have hscore : ∀ s ∈ m.values, ∀ (e : Elementary) (score : Score),
      ∃ x, s.score e score = .ok x := by
    intro s hs e score
    obtain ⟨xs, hmerge, hxs⟩ := hmerged s hs
    have hsound := hmerge.isSound fun x hx => (hxs x hx).isSound
    exact hsound.exists_score e (hbounded s hs) score
  have hmade := Settings.isMadeOf_of_ofDraft hsettings
  obtain ⟨listed, hsort⟩ := exists_sort_of_scores fun s hs =>
    hscore s hs .native settings.sortField
  refine ⟨hscore, ?_, ?_⟩
  · rw [Settings.of_scoreOf hmade.sortField, Score.ofDatum_name]
  · obtain ⟨page, hpage⟩ : ∃ page, pageBySettings m settings = .ok page :=
      ⟨_, Run.bind_eq_ok.mpr ⟨listed, hsort, rfl⟩⟩
    exact ⟨page, hpage, (hmade.pageOf_eq hsort).trans hpage⟩

/-- The standing of the entity near the sample route, merged with itself, is in a ranking that can
be paged by the presets. -/
theorem exists_page_sample : ∃ (m : Rankings Float) (listed : List String), m.keys = ["a"] ∧
    (∀ s ∈ m.values, s.boxCount = 2 ∧ ∃ x, Standing.IsMergeOf [x, x] s ∧ x.IsRanked) ∧
    (∀ s ∈ m.values, ∀ (e : Elementary) (score : Score), ∃ x, s.score e score = .ok x) ∧
    pageBySettings m .preset = .ok listed := by
  obtain ⟨ranking, hranking⟩ := Route.exists_sampleRanking
  obtain ⟨grid, cells, hgrid, hcells, -, -⟩ := Route.exists_sampleTube
  have hkey : "a" ∈ Route.sample.box.pings.map Ping.key := by decide +kernel
  obtain ⟨x, hx, hcounted⟩ := Route.exists_isCounted hranking hgrid hcells (.inr hkey)
  have hranked : x.IsRanked := ⟨_, _, _, _, ranking, hranking, hx⟩
  obtain ⟨s, hs, hsgrid⟩ := Standing.exists_merge (rfl : x.grid = x.grid)
  have hmerge : Standing.IsMergeOf [x, x] s := .merge (.single x) (.single x) hs
  have hsum := Standing.isSum_of_merge hs
  have hdivisions : grid.divisions = 2 := (Except.ok.inj (Grid.divisions_of_build hgrid)).symm
  have htubeCount : s.tubeCount = 2 := by
    have hone : x.tubeCount = 1 := hcounted.tubeCount.trans (by decide +kernel)
    rw [hsum.tubeCount, hone]
    rfl
  have hboxCount : s.boxCount = 2 := by
    have hone : x.boxCount = 1 := hcounted.boxCount.trans (by decide +kernel)
    rw [hsum.boxCount, hone]
    rfl
  have hside : s.divisions = 2 := by
    have hsame : s.divisions = x.divisions := congrArg Prod.fst hsgrid
    rw [hsame, hcounted.divisions, hdivisions]
    rfl
  have hlt : (2 ^ 2 : ℤ) < 2 ^ 1023 := pow_lt_pow_right₀ one_lt_two (by decide)
  have hbounded : s.IsBounded := by
    constructor
    · rw [htubeCount]
      exact lt_trans (by decide) hlt
    · rw [hboxCount]
      exact lt_trans (by decide) hlt
    · rwa [hside]
  have hall : ∀ t ∈ (⟨[("a", s)]⟩ : Rankings Float).values, t = s := fun t ht =>
    List.mem_singleton.mp ht
  obtain ⟨hscore, -, listed, hlisted, -⟩ := exists_page (m := ⟨[("a", s)]⟩)
    Settings.ofDraft_preset (fun t ht => hall t ht ▸ ⟨[x, x], hmerge, by simpa using hranked⟩)
    fun t ht => hall t ht ▸ hbounded
  exact ⟨_, listed, rfl, fun t ht => hall t ht ▸ ⟨hboxCount, x, hmerge, hranked⟩, hscore, hlisted⟩

end Listing

end Corridor
