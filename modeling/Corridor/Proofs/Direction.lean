import Corridor.Proofs.Formulas

/-!
# Which Way the Scores Move

An entity is placed the better the more often it was seen in the tube, the more cells of the tube it
covers, the fewer cells of the grid it touches and the less its counts spread over the tube; and its
motion is the better the more evidence there is of it. Over the real numbers the scores follow.

The count in the tube enters twice, as the density itself and inside the exponential, where it
divides the spread. Where the density becomes zero, the evenness jumps back up to one; but there the
product with the density is zero, and so the two together do not jump (`weighted_le`).

## Main results

* `Standing.PlacedBelow`: one entity is placed no better than another on the same grid.
* `Standing.PlacedBelow.exactIdf_lt`: who touches fewer cells is rarer.
* `Standing.PlacedBelow.scores_le`: the scores of the two are in order.
-/

namespace Corridor

attribute [local instance] divReal

/-- A density times the exponential of a spread in units of it grows with the density and falls with
the spread, also from a density of zero. -/
theorem weighted_le {d d' x x' : ℝ} (hd : 0 ≤ d) (hdd' : d ≤ d') (hx' : 0 ≤ x') (hxx' : x' ≤ x) :
    d * Real.exp (-(x / d)) ≤ d' * Real.exp (-(x' / d')) := by
  rcases hd.eq_or_lt with rfl | hpos
  · rw [zero_mul]
    exact mul_nonneg hdd' (Real.exp_pos _).le
  · have hscaled : x' / d' ≤ x / d := div_le_div₀ (hx'.trans hxx') hxx' hpos hdd'
    have hexp : Real.exp (-(x / d)) ≤ Real.exp (-(x' / d')) :=
      Real.exp_le_exp.mpr (neg_le_neg hscaled)
    exact mul_le_mul hdd' hexp (Real.exp_pos _).le (hd.trans hdd')

namespace Standing

/-- An entity that touches a cell, with counts, a spread and evidence that are not negative. -/
structure IsProper (s : Standing ℝ) : Prop where
  one_le_boxCells : 1 ≤ s.boxCells
  boxCells_le : s.boxCells ≤ s.divisions * s.divisions
  tubeCount_nonneg : 0 ≤ s.tubeCount
  tubeCells_nonneg : 0 ≤ s.tubeCells
  tubeSize_nonneg : 0 ≤ s.tubeSize
  spread_nonneg : 0 ≤ s.spread
  total_nonneg : 0 ≤ s.evidence.total
  max_nonneg : 0 ≤ s.evidence.max

/-- An entity is placed no better than another on the same grid: it was seen no more often in the
tube, covers no more of it, touches no fewer cells and is spread no less. -/
structure PlacedBelow (s t : Standing ℝ) : Prop where
  divisions_eq : s.divisions = t.divisions
  tubeSize_eq : s.tubeSize = t.tubeSize
  tubeCount_le : s.tubeCount ≤ t.tubeCount
  tubeCells_le : s.tubeCells ≤ t.tubeCells
  boxCells_le : t.boxCells ≤ s.boxCells
  spread_le : t.spread ≤ s.spread

namespace IsProper

variable {s : Standing ℝ} (h : s.IsProper)
include h

theorem boxCells_pos : 0 < s.boxCells := h.one_le_boxCells

theorem exactIdf_nonneg : 0 ≤ s.exactIdf := Standing.exactIdf_nonneg h.boxCells_pos h.boxCells_le

theorem density_nonneg : 0 ≤ s.perTubeCell s.tubeCount :=
  s.perTubeCell_nonneg h.tubeCount_nonneg h.tubeSize_nonneg

theorem coverage_nonneg : 0 ≤ s.perTubeCell s.tubeCells :=
  s.perTubeCell_nonneg h.tubeCells_nonneg h.tubeSize_nonneg

theorem placeProduct_nonneg : 0 ≤ s.placeProduct s.exactIdf :=
  Standing.placeProduct_nonneg h.exactIdf_nonneg h.density_nonneg h.coverage_nonneg

theorem hasScore_idf (cap : ℝ) : s.HasScore cap .idf s.exactIdf :=
  Standing.hasScore_idf h.boxCells_pos h.boxCells_le

theorem hasScore_place (cap : ℝ) :
    s.HasScore cap .place (s.placeProduct s.exactIdf ^ (1 / (3 : ℕ) : ℝ)) :=
  Standing.hasScore_place h.exactIdf_nonneg h.density_nonneg h.coverage_nonneg
    (h.hasScore_idf cap)

end IsProper

namespace PlacedBelow

variable {s t : Standing ℝ} (h : s.PlacedBelow t)
include h

/-- Counts by the cells of the tube are in the order of the counts. -/
theorem perTubeCell_le (hs : 0 ≤ s.tubeSize) {m n : ℤ} (hmn : m ≤ n) :
    s.perTubeCell m ≤ t.perTubeCell n := by
  rw [perTubeCell, perTubeCell, ← h.tubeSize_eq]
  exact div_le_div_of_nonneg_right (Int.cast_le.mpr hmn) (Int.cast_nonneg hs)

variable (hs : s.IsProper) (ht : t.IsProper)
include hs ht

/-- Who touches fewer cells is rarer. -/
theorem exactIdf_lt (hlt : t.boxCells < s.boxCells) : s.exactIdf < t.exactIdf := by
  have hcells : (0 : ℝ) < (s.divisions * s.divisions : ℤ) :=
    Int.cast_pos.mpr (hs.boxCells_pos.trans_le hs.boxCells_le)
  have hpos : (0 : ℝ) < s.boxCells := Int.cast_pos.mpr hs.boxCells_pos
  have hpos' : (0 : ℝ) < t.boxCells := Int.cast_pos.mpr ht.boxCells_pos
  rw [exactIdf, exactIdf, ← h.divisions_eq]
  refine Real.log_lt_log (div_pos hcells hpos) ?_
  exact div_lt_div_of_pos_left hcells hpos' (Int.cast_lt.mpr hlt)

theorem exactIdf_le : s.exactIdf ≤ t.exactIdf := by
  rcases h.boxCells_le.eq_or_lt with heq | hlt
  · rw [exactIdf, exactIdf, h.divisions_eq, heq]
  · exact (h.exactIdf_lt hs ht hlt).le

/-- The products that the scores of the places are the roots of are in order. -/
theorem placeProduct_le : s.placeProduct s.exactIdf ≤ t.placeProduct t.exactIdf := by
  have hcoverage := h.perTubeCell_le hs.tubeSize_nonneg h.tubeCells_le
  have hdensity := h.perTubeCell_le hs.tubeSize_nonneg h.tubeCount_le
  -- the density is taken together with the evenness, which alone may fall
  have hweighted := weighted_le hs.density_nonneg hdensity ht.spread_nonneg h.spread_le
  calc s.placeProduct s.exactIdf
      = s.exactIdf * s.perTubeCell s.tubeCells *
          (s.perTubeCell s.tubeCount * s.exactEvenness) := by
        rw [placeProduct]
        ring
    _ ≤ t.exactIdf * t.perTubeCell t.tubeCells *
          (t.perTubeCell t.tubeCount * t.exactEvenness) := by
        refine mul_le_mul ?_ hweighted ?_ ?_
        · exact mul_le_mul (h.exactIdf_le hs ht) hcoverage hs.coverage_nonneg ht.exactIdf_nonneg
        · exact mul_nonneg hs.density_nonneg s.exactEvenness_pos.le
        · exact mul_nonneg ht.exactIdf_nonneg ht.coverage_nonneg
    _ = t.placeProduct t.exactIdf := by
        rw [placeProduct]
        ring

/-- **The scores follow the order of the standings.** Of two entities of which one is placed no
better than the other, the scores of the place are in this order, and the inverse document
frequencies are, strictly so if it touches more cells. If there is no more evidence of its motion
either, in total and at most, the combined scores are in this order as well. -/
theorem scores_le (cap : ℝ) :
    (∃ i j, s.HasScore cap .idf i ∧ t.HasScore cap .idf j ∧ i ≤ j ∧
      (t.boxCells < s.boxCells → i < j)) ∧
    (∃ p q, s.HasScore cap .place p ∧ t.HasScore cap .place q ∧ p ≤ q) ∧
    (s.evidence.total ≤ t.evidence.total → s.evidence.max ≤ t.evidence.max →
      ∃ x y, s.HasScore cap .combined x ∧ t.HasScore cap .combined y ∧ x ≤ y) := by
  have hp := hs.hasScore_place cap
  have hq := ht.hasScore_place cap
  have hp0 := Real.rpow_nonneg hs.placeProduct_nonneg (1 / (3 : ℕ) : ℝ)
  have hpq := Real.rpow_le_rpow hs.placeProduct_nonneg (h.placeProduct_le hs ht)
    (show 0 ≤ (1 / (3 : ℕ) : ℝ) by norm_num)
  refine ⟨⟨_, _, hs.hasScore_idf cap, ht.hasScore_idf cap, h.exactIdf_le hs ht,
    h.exactIdf_lt hs ht⟩, ⟨_, _, hp, hq, hpq⟩, ?_⟩
  intro htotal hmax
  have hlog : 0 ≤ Real.log (s.evidence.total + 1) := Real.log_nonneg (by linarith [hs.total_nonneg])
  have hlog' : Real.log (s.evidence.total + 1) ≤ Real.log (t.evidence.total + 1) :=
    Real.log_le_log (by linarith [hs.total_nonneg]) (by linarith)
  refine ⟨_, _, hasScore_combined hp hp0 hs.total_nonneg hs.max_nonneg,
    hasScore_combined hq (hp0.trans hpq) ht.total_nonneg ht.max_nonneg, ?_⟩
  refine Real.rpow_le_rpow (mul_nonneg (mul_nonneg hp0 hlog) hs.max_nonneg) ?_ (by norm_num)
  have hweighed := mul_le_mul hpq hlog' hlog (hp0.trans hpq)
  exact mul_le_mul hweighed hmax hs.max_nonneg (mul_nonneg (hp0.trans hpq) (hlog.trans hlog'))

end PlacedBelow

/-- An entity that was not seen in the tube, on a grid of four cells. -/
noncomputable def unseen : Standing ℝ := ⟨0, 4, 2, 1, 3, ⟨0, 0, 0⟩, 2, 2⟩

/-- The same entity, seen once, in fewer cells and with evidence of motion. -/
noncomputable def seenOnce : Standing ℝ :=
  { unseen with tubeCount := 1, boxCells := 1, evidence := ⟨1, 1, 0⟩ }

/-- To be seen for the first time lowers no score, though the evenness falls. -/
theorem scores_le_unseen : unseen.IsProper ∧ seenOnce.IsProper ∧ unseen.PlacedBelow seenOnce ∧
    (∃ i j, unseen.HasScore 1 .idf i ∧ seenOnce.HasScore 1 .idf j ∧ i < j) ∧
    (∃ p q, unseen.HasScore 1 .place p ∧ seenOnce.HasScore 1 .place q ∧ p ≤ q) ∧
    ∃ x y, unseen.HasScore 1 .combined x ∧ seenOnce.HasScore 1 .combined y ∧ x ≤ y := by
  have hs : unseen.IsProper := by
    constructor <;> norm_num [unseen]
  have ht : seenOnce.IsProper := by
    constructor <;> norm_num [seenOnce, unseen]
  have h : unseen.PlacedBelow seenOnce := by
    constructor <;> norm_num [seenOnce, unseen]
  obtain ⟨⟨i, j, hi, hj, -, hlt⟩, hplace, hcombined⟩ := h.scores_le hs ht 1
  refine ⟨hs, ht, h, ⟨i, j, hi, hj, hlt ?_⟩, hplace, hcombined ?_ ?_⟩
  all_goals norm_num [seenOnce, unseen]

end Standing

end Corridor
