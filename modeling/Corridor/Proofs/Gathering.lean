import Corridor.Proofs.Formulas
import Corridor.Proofs.Neutral

/-!
# Evidence Gathered by Merging

Evidence is summed up of lists of scores and merged, in any order and any nesting. Whatever the
scores, the total of what is gathered is their sum and the greatest score is none less than any of
them: a merge adds totals, and it takes the greater of two greatest scores, which may be the zero of
an empty list. A sum that is positive has a positive term, so a positive total has a positive
greatest score, and the factors that evidence adds to a combined score are positive where there are
any.

## Main results

* `Evidence.IsOf.merge`: what a merge preserves.
* `Gathering.exists_evidence`: evidence that was gathered in any way.
* `Gathering.evidence_backed`: what it adds to a combined score.
-/

namespace Corridor

attribute [local instance] divReal

/-- A way of gathering evidence: lists of scores, and merges of what was gathered before. -/
inductive Gathering (α : Type) where
  | scores (xs : List α)
  | merge (a b : Gathering α)

namespace Gathering

variable {α : Type}

/-- The evidence that is gathered. -/
def evidence [Scalar α] : Gathering α → Except ArithmeticFault (Evidence α)
  | scores xs => Evidence.summarize xs
  | merge a b => do return (← a.evidence).merge (← b.evidence)

/-- All the scores that it is gathered from. -/
def allScores : Gathering α → List α
  | scores xs => xs
  | merge a b => a.allScores ++ b.allScores

end Gathering

namespace Evidence

/-- Evidence of listed scores: it adds them up, and none of them is greater than its greatest. -/
structure IsOf (xs : List ℝ) (e : Evidence ℝ) : Prop where
  total_eq : e.total = xs.sum
  le_max : ∀ x ∈ xs, x ≤ e.max
  deviation_nonneg : 0 ≤ e.deviation

/-- A summary is evidence of its scores. -/
theorem exists_isOf (xs : List ℝ) : ∃ e, summarize xs = .ok e ∧ e.IsOf xs := by
  cases xs with
  | nil => exact ⟨nothing, rfl, rfl, by simp, le_rfl⟩
  | cons x xs =>
      refine ⟨_, summarize_real x xs, rfl, fun y hy => ?_, Real.sqrt_nonneg _⟩
      exact Stats.le_greatest_real.mpr ⟨y, hy, le_rfl⟩

namespace IsOf

variable {xs ys : List ℝ} {a b e : Evidence ℝ}

/-- **A merge is evidence of the scores of both parts.** -/
theorem merge (ha : a.IsOf xs) (hb : b.IsOf ys) : (a.merge b).IsOf (xs ++ ys) where
  total_eq := by
    rw [List.sum_append, ← ha.total_eq, ← hb.total_eq]
    rfl
  le_max x hx := by
    rw [Evidence.merge, Scalar.larger_real, le_max_iff]
    exact (List.mem_append.mp hx).imp (ha.le_max x) (hb.le_max x)
  deviation_nonneg := Real.sqrt_nonneg _

/-- A positive total has a positive score, and so a positive greatest one. -/
theorem max_pos (h : e.IsOf xs) (htotal : 0 < e.total) : 0 < e.max := by
  obtain ⟨x, hx, hpos⟩ : ∃ x ∈ xs, (0 : ℝ) < x := List.exists_lt_of_sum_lt (fun _ => 0) id (by
    rwa [List.map_id, List.map_const', List.sum_replicate, nsmul_zero, ← h.total_eq])
  exact hpos.trans_le (h.le_max x hx)

end IsOf

end Evidence

namespace Gathering

/-- **Evidence that was gathered in any way** is evidence of all the scores. -/
theorem exists_evidence (g : Gathering ℝ) : ∃ e, g.evidence = .ok e ∧ e.IsOf g.allScores := by
  induction g with
  | scores xs => exact Evidence.exists_isOf xs
  | merge a b iha ihb =>
      obtain ⟨ea, ha, hofa⟩ := iha
      obtain ⟨eb, hb, hofb⟩ := ihb
      refine ⟨ea.merge eb, ?_, hofa.merge hofb⟩
      rw [evidence, ha, hb]
      rfl

/-- **A positive total is backed by a positive greatest score.** -/
theorem evidence_backed (g : Gathering ℝ) :
    ∃ e, g.evidence = .ok e ∧ 0 ≤ e.deviation ∧
      (0 < e.total → 0 < Real.log (e.total + 1) ∧ 0 < e.max) ∧
      ∀ (s : Standing ℝ) (cap undefined : ℝ),
        { s with evidence := e }.exactScore cap undefined .combined =
          if 0 < e.total then
            (s.exactScore cap undefined .place).map fun p =>
              @Stats.geometricMean ℝ (Scalar.exact cap undefined)
                [p, Real.log (e.total + 1), e.max]
          else .ok 0 := by
  obtain ⟨e, he, hof⟩ := g.exists_evidence
  refine ⟨e, he, hof.deviation_nonneg,
    fun htotal => ⟨Real.log_pos (by linarith), hof.max_pos htotal⟩, fun s cap undefined => ?_⟩
  rw [Standing.exactScore_combined]
  by_cases htotal : 0 < e.total
  · have hlogarithm : (Scalar.exact cap undefined).log (e.total + 1) =
        .ok (Real.log (e.total + 1)) := if_neg (by linarith)
    rw [if_pos (decide_eq_true htotal), if_pos htotal, hlogarithm]
    change s.exactScore cap undefined .place >>= _ = _
    cases s.exactScore cap undefined .place <;> rfl
  · rw [if_neg (mt of_decide_eq_true htotal), if_neg htotal]

end Gathering

end Corridor
