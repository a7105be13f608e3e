import Corridor.Proofs.Formulas
import Corridor.Proofs.Nesting
import Corridor.Proofs.Undefined

/-!
# Which Scores Are Positive

Over the real numbers, the combined score of an entity is a geometric mean of geometric means, so
it is positive just if each factor is. The factors are not independent of each other: evidence is
positive in total only if the greatest score is, and there is none but of entities that were seen in
the tube, so with evidence in total the density and the evenness are positive as well. What is left
is that the entity covers a cell of the tube, and that it does not touch all cells of the grid.

## Main results

* `Stats.rpow_product_pos_iff`: a geometric mean is positive just if its factors are.
* `Standing.Counts.exists_place`: when the score of the place is positive.
* `Route.rank_positive`: when the combined score of an entity is positive.
-/

namespace Corridor

open Double

/-- A root of a product of three numbers that are at least zero is positive just if they are. -/
theorem Stats.rpow_product_pos_iff {a b c x : ℝ} (hx : x ≠ 0) (ha : 0 ≤ a) (hb : 0 ≤ b)
    (hc : 0 ≤ c) : 0 < (a * b * c) ^ x ↔ 0 < a ∧ 0 < b ∧ 0 < c := by
  have hproduct : 0 ≤ a * b * c := mul_nonneg (mul_nonneg ha hb) hc
  have hroot : (a * b * c) ^ x ≠ 0 ↔ a * b * c ≠ 0 := not_congr (Real.rpow_eq_zero hproduct hx)
  rw [(Real.rpow_nonneg hproduct _).lt_iff_ne', ha.lt_iff_ne', hb.lt_iff_ne', hc.lt_iff_ne',
    hroot, mul_ne_zero_iff, mul_ne_zero_iff, and_assoc]

namespace Standing

namespace Counts

variable {s : Standing Float} {n : ℕ} (h : s.Counts n) (read : Float → ℝ) {cap : ℝ}
include h

/-- The inverse document frequency is positive unless the entity touches all cells of the grid. -/
theorem exists_idf_exact (hn : 0 < n) (hcap : 0 < cap) :
    ∃ i, (s.readAs read).HasScore cap .idf i ∧ 0 ≤ i ∧ (0 < i ↔ s.boxCells < n * n) := by
  by_cases h0 : s.boxCells = 0
  · refine ⟨cap, hasScore_idf_of_eq_zero h0, hcap.le, iff_of_true hcap ?_⟩
    rw [h0]
    positivity
  · have hpos : 0 < (s.readAs read).boxCells := lt_of_le_of_ne h.boxCells_nonneg (Ne.symm h0)
    have hle : (s.readAs read).boxCells ≤ s.divisions * s.divisions := by
      rw [h.divisions_eq]
      exact h.boxCells_le.trans (min_le_right _ _)
    rw [← h.divisions_eq]
    exact ⟨_, hasScore_idf hpos hle, exactIdf_nonneg hpos hle, exactIdf_pos_iff hpos hle⟩

/-- The score of the place of an entity that was seen in the tube is positive if it covers a cell of
the tube and does not touch all cells of the grid. -/
theorem exists_place_exact (hn : 0 < n) (hcap : 0 < cap) :
    ∃ p, (s.readAs read).HasScore cap .place p ∧ 0 ≤ p ∧
      (1 ≤ s.tubeCount → (0 < p ↔ 1 ≤ s.tubeCells ∧ s.boxCells < n * n)) := by
  obtain ⟨i, hi, hi0, hipos⟩ := h.exists_idf_exact read hn hcap
  have hd0 := (s.readAs read).perTubeCell_nonneg h.tubeCount_nonneg h.tubeSize_nonneg
  have hc0 := (s.readAs read).perTubeCell_nonneg h.tubeCells_nonneg h.tubeSize_nonneg
  have hv := (s.readAs read).exactEvenness_pos
  refine ⟨_, hasScore_place hi0 hd0 hc0 hi,
    Real.rpow_nonneg (placeProduct_nonneg hi0 hd0 hc0) _, fun hseen => ?_⟩
  rw [← hipos]
  refine (Stats.rpow_product_pos_iff (by norm_num) (mul_nonneg hi0 hd0) hc0 hv.le).trans ?_
  constructor
  · rintro ⟨hweighted, hcovered, -⟩
    have hcells : s.tubeCells ≠ 0 := fun h0 =>
      hcovered.ne' ((s.readAs read).perTubeCell_eq_zero_iff.mpr (.inl h0))
    have hi' : i ≠ 0 := left_ne_zero_of_mul hweighted.ne'
    exact ⟨lt_of_le_of_ne h.tubeCells_nonneg hcells.symm, hi0.lt_of_ne' hi'⟩
  · rintro ⟨hcells, hi'⟩
    have hsize : s.tubeSize ≠ 0 := by
      have hle := h.tubeCells_le.trans (min_le_right _ _)
      omega
    have hshare : ∀ a : ℤ, 1 ≤ a → (s.readAs read).perTubeCell a ≠ 0 := fun a ha h0 =>
      ((s.readAs read).perTubeCell_eq_zero_iff.mp h0).elim (by omega) hsize
    exact ⟨mul_pos hi' (hd0.lt_of_ne' (hshare _ hseen)), hc0.lt_of_ne' (hshare _ hcells), hv⟩

end Counts

namespace IsHeld

variable {s : Standing Float} {n : ℕ} (h : s.IsHeld n) {read : Float → ℝ}
  (hread : ∀ x : Float, x.isFinite = true → read x = toReal x) {cap : ℝ}
include h hread

/-- The combined score of an entity is positive if it has evidence in total, covers a cell of the
tube and does not touch all cells of the grid. -/
theorem exists_combined_exact (hn : 0 < n) (hcap : 0 < cap) :
    ∃ x, (s.readAs read).HasScore cap .combined x ∧ 0 ≤ x ∧
      (0 < x ↔ 0 < s.evidence.total ∧ 1 ≤ s.tubeCells ∧ s.boxCells < n * n) := by
  obtain ⟨hfinite, hmax⟩ := h.evidence.ranges
  obtain ⟨p, hp, hp0, hppos⟩ := h.exists_place_exact read hn hcap
  by_cases hpos : 0 < s.evidence.total
  · have htotal : 0 < read s.evidence.total := by
      rw [hread _ hfinite]
      exact toReal_pos hpos
    have hgreatest : 0 < read s.evidence.max := by
      rw [hread _ (hmax hpos).2]
      exact toReal_pos (hmax hpos).1
    have hlog : 0 < Real.log (read s.evidence.total + 1) := Real.log_pos (by linarith)
    have hseen : 1 ≤ s.tubeCount := by
      refine lt_of_le_of_ne h.tubeCount_nonneg fun h0 => ?_
      rw [h.unscored h0.symm] at hpos
      exact absurd hpos (by decide)
    refine ⟨_, hasScore_combined_of_pos hp hp0 htotal hgreatest.le,
      Real.rpow_nonneg (mul_nonneg (mul_nonneg hp0 hlog.le) hgreatest.le) _, ?_⟩
    rw [← hppos hseen]
    refine (Stats.rpow_product_pos_iff (by norm_num) hp0 hlog.le hgreatest.le).trans ?_
    rw [and_iff_left ⟨hlog, hgreatest⟩, and_iff_right hpos]
  · have htotal : ¬0 < read s.evidence.total := by
      rw [hread _ hfinite, not_lt]
      refine toReal_nonpos (not_lt.mp fun hunits => hpos ?_)
      exact pos_iff.mpr ⟨isNaN_of_isFinite hfinite, hunits⟩
    exact ⟨0, hasScore_combined_of_not_pos htotal, le_rfl,
      iff_of_false (lt_irrefl 0) fun hall => hpos hall.1⟩

end IsHeld

end Standing

namespace Route

/-- **Which entities have a positive score.** In a ranking by a scorer whose answers are finite, and
over the real numbers, the scores of the place and the combined scores are at least zero, and no
product of their factors is negative; and the combined score of an entity is positive if and only if
its evidence is positive in total, it covers a cell of the tube, and it does not touch all cells of
the grid. -/
theorem rank_positive [Geodesy] (r : Route) (hscorer : r.scorer.IsFinite) {cap : ℝ} (hcap : 0 < cap)
    {read : Float → ℝ} (hread : ∀ x : Float, x.isFinite = true → read x = toReal x)
    {extent : Extent} {shapes : List (Option Shape)} {divisions : Datum} {m : Rankings Float}
    (h : (Run.start (r.rank extent shapes divisions)).1 = .ok m) :
    ∃ n : ℕ, Grid.divisionsOf (orConfigured divisions r.settings.gridDivisions) = .ok n ∧
      ∀ s ∈ m.values,
        (∃ p, (s.readAs read).HasScore cap .place p ∧ 0 ≤ p) ∧
        ∃ x, (s.readAs read).HasScore cap .combined x ∧ 0 ≤ x ∧
          (0 < x ↔ 0 < s.evidence.total ∧ 1 ≤ s.tubeCells ∧ s.boxCells < n * n) := by
  obtain ⟨n, hn, hcounts⟩ := counts_of_rank h
  obtain ⟨n', hheld⟩ := isHeld_of_rank hscorer h
  have hpos := Grid.divisionsOf_pos hn
  refine ⟨n, hn, fun s hs => ?_⟩
  obtain ⟨hs', -⟩ := hheld s hs
  obtain rfl : n' = n :=
    Int.ofNat.inj (hs'.divisions_eq.symm.trans (hcounts s hs).1.divisions_eq)
  obtain ⟨p, hp, hp0, -⟩ := hs'.exists_place_exact read hpos hcap
  exact ⟨⟨p, hp, hp0⟩, hs'.exists_combined_exact hread hpos hcap⟩

/-- The scorer of the sample has finite answers. -/
theorem sample_isFinite : sample.scorer.IsFinite := by
  intro divisions n track x hx
  obtain rfl := Except.ok.inj hx
  exact isFinite_one

theorem rank_positive_sample : sample.scorer.IsFinite ∧ ∃ m s x,
    (Run.start (sample.rank (.bounds [0, 0, 2, 2]) [some (Shape.box 0 0 1 1)]
        (.whole (2 : ℕ)))).1 = .ok m ∧ s ∈ m.values ∧
      (s.readAs toReal).HasScore 1 .combined x ∧
      (0 < x ↔ 0 < s.evidence.total ∧ 1 ≤ s.tubeCells ∧ s.boxCells < 2 * 2) := by
  obtain ⟨m, hm⟩ := exists_sampleRanking
  obtain ⟨grid, cells, hgrid, hcells, -, -⟩ := exists_sampleTube
  have hkey : "a" ∈ sample.box.pings.map Ping.key := by decide +kernel
  obtain ⟨s, hs, -⟩ := exists_isCounted hm hgrid hcells (.inr hkey)
  obtain ⟨n, hn, hall⟩ :=
    rank_positive sample sample_isFinite zero_lt_one (fun x _ => rfl) hm
  obtain rfl : (2 : ℕ) = n := Except.ok.inj hn
  obtain ⟨-, x, hx, -, hiff⟩ := hall s hs
  exact ⟨sample_isFinite, m, s, x, hm, hs, hx, hiff⟩

end Route

end Corridor
