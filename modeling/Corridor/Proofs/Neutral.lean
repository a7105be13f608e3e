import Corridor.Proofs.Exact
import Corridor.Standing

/-!
# Merging with Nothing

The evidence of no tracklets has zero for its total, its greatest score and its deviation. Zero is
neutral for sums and, as far as no deviation is negative, for roots of sums of squares. For maxima
it is neutral among the numbers that are not negative only: a greatest score below zero is raised to
zero by a merge with nothing, and then it is the score of no tracklet. So nothing is neutral for the
evidence of an entity unless there are scores and all of them are negative.

## Main results

* `Evidence.merge_nothing_real`, `Evidence.nothing_merge_real`: what merging with nothing leaves.
* `Standing.merge_empty_real`, `Standing.empty_merge_real`: the same for standings.
* `Evidence.nothing_neutral_iff`: for which scores nothing is neutral.
-/

namespace Corridor

/-- To combine a deviation with none takes its absolute value. -/
theorem Stats.combineDeviations_zero_right (a : ℝ) : combineDeviations a 0 = |a| := by
  rw [combineDeviations_real, mul_zero, add_zero, Real.sqrt_mul_self_eq_abs]

theorem Stats.combineDeviations_zero_left (a : ℝ) : combineDeviations 0 a = |a| := by
  rw [combineDeviations_real, mul_zero, zero_add, Real.sqrt_mul_self_eq_abs]

namespace Evidence

/-- The evidence with a greatest score of at least zero. -/
def raised (e : Evidence ℝ) : Evidence ℝ := { e with max := e.max ⊔ 0 }

theorem raised_eq_self_iff {e : Evidence ℝ} : e.raised = e ↔ 0 ≤ e.max := by
  rw [← sup_eq_left]
  exact ⟨congrArg Evidence.max, fun h => by rw [raised, h]⟩

/-- What merging with nothing leaves of evidence whose deviation is not negative. -/
theorem merge_nothing_real {e : Evidence ℝ} (h : 0 ≤ e.deviation) : e.merge nothing = e.raised := by
  have hmerge : e.merge nothing = ⟨e.total + 0, Scalar.larger e.max 0,
      Stats.combineDeviations e.deviation 0⟩ := rfl
  rw [hmerge, raised, add_zero, Scalar.larger_real, Stats.combineDeviations_zero_right,
    abs_of_nonneg h]

theorem nothing_merge_real {e : Evidence ℝ} (h : 0 ≤ e.deviation) : nothing.merge e = e.raised := by
  have hmerge : nothing.merge e = ⟨0 + e.total, Scalar.larger 0 e.max,
      Stats.combineDeviations 0 e.deviation⟩ := rfl
  rw [hmerge, raised, zero_add, Scalar.larger_real, max_comm, Stats.combineDeviations_zero_left,
    abs_of_nonneg h]

/-- The exact summary of scores has no negative deviation, and its greatest score is negative just
if there are scores and all of them are. -/
theorem exists_summarize_real (scores : List ℝ) :
    ∃ e, summarize scores = .ok e ∧ 0 ≤ e.deviation ∧
      (0 ≤ e.max ↔ scores = [] ∨ ∃ x ∈ scores, 0 ≤ x) := by
  cases scores with
  | nil => exact ⟨nothing, rfl, le_rfl, iff_of_true le_rfl (.inl rfl)⟩
  | cons x xs =>
      refine ⟨_, summarize_real x xs, Real.sqrt_nonneg _, ?_⟩
      rw [Stats.le_greatest_real, or_iff_right (List.cons_ne_nil x xs)]

end Evidence

namespace Standing

/-- What merging with an entity that was never observed leaves of a standing. -/
theorem merge_empty_real (s : Standing ℝ) : s.merge (empty s.divisions s.tubeSize) =
    .ok { s with spread := |s.spread|, evidence := s.evidence.merge Evidence.nothing } := by
  have hgrid : s.grid = (empty s.divisions s.tubeSize : Standing ℝ).grid := rfl
  have hspread : Stats.combineDeviations s.spread Scalar.zero = |s.spread| :=
    Stats.combineDeviations_zero_right s.spread
  rw [merge, if_pos hgrid]
  simp only [empty, add_zero, hspread]

theorem empty_merge_real (s : Standing ℝ) : (empty s.divisions s.tubeSize).merge s =
    .ok { s with spread := |s.spread|, evidence := Evidence.nothing.merge s.evidence } := by
  have hgrid : (empty s.divisions s.tubeSize : Standing ℝ).grid = s.grid := rfl
  have hspread : Stats.combineDeviations Scalar.zero s.spread = |s.spread| :=
    Stats.combineDeviations_zero_left s.spread
  rw [merge, if_pos hgrid]
  simp only [empty, zero_add, hspread]

end Standing

namespace Evidence

/-- **For which scores nothing is neutral.** Scores have a summary. To merge it with nothing, from
either side, raises its greatest score to zero and changes nothing else, and this is the summary
again if and only if there are no scores or one of them is not negative. The same happens to the
evidence in a standing that is merged, on the same grid, with one of an entity that was never
observed; of the rest of the standing all is left, its spread without a sign. -/
theorem nothing_neutral_iff (scores : List ℝ) :
    ∃ e, summarize scores = .ok e ∧ e.merge nothing = e.raised ∧ nothing.merge e = e.raised ∧
      (e.raised = e ↔ scores = [] ∨ ∃ x ∈ scores, 0 ≤ x) ∧
      ∀ s : Standing ℝ,
        { s with evidence := e }.merge (.empty s.divisions s.tubeSize) =
          .ok { s with spread := |s.spread|, evidence := e.raised } ∧
        (Standing.empty s.divisions s.tubeSize).merge { s with evidence := e } =
          .ok { s with spread := |s.spread|, evidence := e.raised } := by
  obtain ⟨e, he, hdeviation, hmax⟩ := exists_summarize_real scores
  have hright := merge_nothing_real hdeviation
  have hleft := nothing_merge_real hdeviation
  refine ⟨e, he, hright, hleft, raised_eq_self_iff.trans hmax, fun s => ⟨?_, ?_⟩⟩
  · rw [← hright]
    exact Standing.merge_empty_real { s with evidence := e }
  · rw [← hleft]
    exact Standing.empty_merge_real { s with evidence := e }

/-- A negative score alone is the greatest, and merged with nothing it is not. -/
theorem nothing_not_neutral : ∃ e : Evidence ℝ, summarize [-1] = .ok e ∧ e.max = -1 ∧
    (e.merge nothing).max = 0 ∧ (nothing.merge e).max = 0 := by
  have hraised : (-1 : ℝ) ⊔ 0 = 0 := max_eq_right (by norm_num)
  refine ⟨_, summarize_real (-1) [], rfl, ?_, ?_⟩
  · rw [merge_nothing_real (Real.sqrt_nonneg _)]
    exact hraised
  · rw [nothing_merge_real (Real.sqrt_nonneg _)]
    exact hraised

end Evidence

end Corridor
