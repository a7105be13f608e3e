import Corridor.Proofs.Exact
import Corridor.Score

/-!
# Scores over the Real Numbers

Over the real numbers each score of an entity is a formula in the fields of its standing, and the
special cases of the program are values of these formulas. A tube without cells has a density of
zero, since nothing divided by zero is zero; an entity that was not seen in the tube has an evenness
of one, the exponential of zero; and evidence of zero has a combined score of zero, because the
logarithm of one is. What is not a value of a formula is the cap on the inverse document frequency
of an entity that touches no cell.

No product of factors that are at least zero is negative, so the value for formulas that have none
is never used: `Standing.HasScore` asks for a score that is the same whatever that value is.

## Main results

* `Stats.geometricMean_eq_rpow`: an exact geometric mean as a root of a product.
* `Standing.hasScore_idf`, `Standing.hasScore_evenness`, `Standing.hasScore_coverage`: the factors.
* `Standing.exactEvenness_eq_one_iff`: when the evenness is one.
* `Standing.hasScore_place`, `Standing.hasScore_combined`: the scores that are put together.
-/

namespace Corridor

attribute [local instance] divReal

/-- The real numbers with a given cap and a given value for formulas that have none. -/
@[reducible] noncomputable def Scalar.exact (cap undefined : ℝ) : Scalar ℝ :=
  { (inferInstance : Scalar ℝ) with largest := cap, undefined := undefined }

/-- The exact geometric mean of three numbers whose product is not negative. -/
theorem Stats.geometricMean_eq_rpow (cap undefined : ℝ) {a b c : ℝ} (h : 0 ≤ a * b * c) :
    @geometricMean ℝ (Scalar.exact cap undefined) [a, b, c] = (a * b * c) ^ (1 / (3 : ℕ) : ℝ) := by
  have hproduct : 1 * a * b * c = a * b * c := by rw [one_mul]
  rw [← hproduct] at h ⊢
  exact if_neg (mt of_decide_eq_true (not_lt.mpr h))

namespace Standing

/-- A score of an exact standing, given the cap and the value of formulas that have none. -/
noncomputable def exactScore (s : Standing ℝ) (cap undefined : ℝ) (score : Score) :
    Except ArithmeticFault ℝ :=
  @Score.of ℝ (Scalar.exact cap undefined) score s

/-- An exact score that does not depend on what formulas without a value give. -/
def HasScore (s : Standing ℝ) (cap : ℝ) (score : Score) (x : ℝ) : Prop :=
  ∀ undefined, s.exactScore cap undefined score = .ok x

variable (s : Standing ℝ) {cap : ℝ}

/-- A count by the cells of the tube, which is zero for a tube without cells. -/
noncomputable def perTubeCell (n : ℤ) : ℝ := n / s.tubeSize

/-- The logarithm of the cells of the grid by those that are touched. -/
noncomputable def exactIdf : ℝ := Real.log ((s.divisions * s.divisions : ℤ) / s.boxCells)

/-- The exponential of the spread in units of the density, taken negative. -/
noncomputable def exactEvenness : ℝ := Real.exp (-(s.spread / s.perTubeCell s.tubeCount))

/-- The factors of the score of the place, given the inverse document frequency. -/
noncomputable def placeProduct (i : ℝ) : ℝ :=
  i * s.perTubeCell s.tubeCount * s.perTubeCell s.tubeCells * s.exactEvenness

theorem perTubeCell_nonneg {n : ℤ} (hn : 0 ≤ n) (h : 0 ≤ s.tubeSize) : 0 ≤ s.perTubeCell n :=
  div_nonneg (Int.cast_nonneg hn) (Int.cast_nonneg h)

theorem perTubeCell_eq_zero_iff {n : ℤ} : s.perTubeCell n = 0 ↔ n = 0 ∨ s.tubeSize = 0 := by
  rw [perTubeCell, div_eq_zero_iff, Int.cast_eq_zero, Int.cast_eq_zero]

theorem exactEvenness_pos : 0 < s.exactEvenness :=
  Real.exp_pos _

theorem quotient_eq_perTubeCell (n : ℤ) (undefined : ℝ) :
    (if s.tubeSize = 0 then .ok 0 else (Scalar.exact cap undefined).quotient n s.tubeSize) =
      .ok (s.perTubeCell n) := by
  rw [perTubeCell]
  split_ifs with h
  · rw [h, Int.cast_zero, div_zero]
  · rfl

/-- The exact density. -/
theorem density_eq_perTubeCell (undefined : ℝ) :
    @density ℝ (Scalar.exact cap undefined) s = .ok (s.perTubeCell s.tubeCount) :=
  s.quotient_eq_perTubeCell s.tubeCount undefined

/-- The exact share of the tube. -/
theorem hasScore_coverage : s.HasScore cap .coverage (s.perTubeCell s.tubeCells) :=
  s.quotient_eq_perTubeCell s.tubeCells

variable {s}

section

variable (hpos : 0 < s.boxCells) (hle : s.boxCells ≤ s.divisions * s.divisions)
include hpos hle

theorem one_le_ratio : (1 : ℝ) ≤ (s.divisions * s.divisions : ℤ) / s.boxCells :=
  (one_le_div (Int.cast_pos.mpr hpos)).mpr (Int.cast_le.mpr hle)

theorem exactIdf_nonneg : 0 ≤ s.exactIdf :=
  Real.log_nonneg (one_le_ratio hpos hle)

theorem exactIdf_pos_iff : 0 < s.exactIdf ↔ s.boxCells < s.divisions * s.divisions := by
  rw [exactIdf, Real.log_pos_iff (zero_le_one.trans (one_le_ratio hpos hle)),
    one_lt_div (Int.cast_pos.mpr hpos), Int.cast_lt]

/-- The exact inverse document frequency of an entity that touches a cell. -/
theorem hasScore_idf : s.HasScore cap .idf s.exactIdf := by
  intro undefined
  have hratio := zero_lt_one.trans_le (one_le_ratio hpos hle)
  have hscore : s.exactScore cap undefined .idf = if s.boxCells = 0 then .ok cap
      else (Scalar.exact cap undefined).log ((s.divisions * s.divisions : ℤ) / s.boxCells) := rfl
  rw [hscore, if_neg hpos.ne']
  exact if_neg hratio.not_ge

end

/-- That of an entity that touches none is the cap. -/
theorem hasScore_idf_of_eq_zero (h : s.boxCells = 0) : s.HasScore cap .idf cap :=
  fun _ => if_pos h

/-- The exact evenness, which is one where the density is zero. -/
theorem hasScore_evenness (h : 0 ≤ s.perTubeCell s.tubeCount) :
    s.HasScore cap .evenness s.exactEvenness := by
  intro undefined
  have hscaled : @scaledSpread ℝ (Scalar.exact cap undefined) s =
      .ok (s.spread / s.perTubeCell s.tubeCount) := by
    refine Run.bind_eq_ok.mpr ⟨_, s.density_eq_perTubeCell undefined, congrArg Except.ok ?_⟩
    rcases h.eq_or_lt with h0 | hpos
    · rw [← h0, div_zero]
      exact if_neg (mt of_decide_eq_true (lt_irrefl 0))
    · exact if_pos (decide_eq_true hpos)
  exact Run.bind_eq_ok.mpr ⟨_, hscaled, rfl⟩

theorem exactEvenness_le_one (hspread : 0 ≤ s.spread) (hdensity : 0 ≤ s.perTubeCell s.tubeCount) :
    s.exactEvenness ≤ 1 :=
  Real.exp_le_one_iff.mpr (neg_nonpos.mpr (div_nonneg hspread hdensity))

/-- The exact evenness is one where it is so by rule, and where there is no spread. -/
theorem exactEvenness_eq_one_iff :
    s.exactEvenness = 1 ↔ s.tubeCount = 0 ∨ s.tubeSize = 0 ∨ s.spread = 0 := by
  rw [exactEvenness, Real.exp_eq_one_iff, neg_eq_zero, div_eq_zero_iff, perTubeCell_eq_zero_iff,
    or_comm, or_assoc]

section

variable {i : ℝ} (hi : 0 ≤ i) (hdensity : 0 ≤ s.perTubeCell s.tubeCount)
  (hcoverage : 0 ≤ s.perTubeCell s.tubeCells)
include hi hdensity hcoverage

theorem placeProduct_nonneg : 0 ≤ s.placeProduct i :=
  mul_nonneg (mul_nonneg (mul_nonneg hi hdensity) hcoverage) s.exactEvenness_pos.le

/-- The exact score of the place, given the inverse document frequency. -/
theorem hasScore_place (hidf : s.HasScore cap .idf i) :
    s.HasScore cap .place (s.placeProduct i ^ (1 / (3 : ℕ) : ℝ)) := by
  intro undefined
  have hweighted : s.exactScore cap undefined .scaledTfIdf =
      .ok (i * s.perTubeCell s.tubeCount) :=
    Run.bind_eq_ok.mpr ⟨i, hidf undefined,
      Run.bind_eq_ok.mpr ⟨_, s.density_eq_perTubeCell undefined, rfl⟩⟩
  refine Run.bind_eq_ok.mpr ⟨_, hweighted,
    Run.bind_eq_ok.mpr ⟨_, s.hasScore_coverage undefined, ?_⟩⟩
  refine Run.bind_eq_ok.mpr ⟨_, hasScore_evenness hdensity undefined, congrArg Except.ok ?_⟩
  exact Stats.geometricMean_eq_rpow cap undefined (placeProduct_nonneg hi hdensity hcoverage)

end

theorem exactScore_combined (undefined : ℝ) : s.exactScore cap undefined .combined =
    if decide (0 < s.evidence.total) = true then
      s.exactScore cap undefined .place >>= fun p =>
        (Scalar.exact cap undefined).log (s.evidence.total + 1) >>= fun l =>
        .ok (@Stats.geometricMean ℝ (Scalar.exact cap undefined) [p, l, s.evidence.max])
    else .ok 0 :=
  rfl

/-- The exact combined score of an entity with evidence in total. -/
theorem hasScore_combined_of_pos {p : ℝ} (hp : s.HasScore cap .place p) (hp0 : 0 ≤ p)
    (htotal : 0 < s.evidence.total) (hmax : 0 ≤ s.evidence.max) : s.HasScore cap .combined
      ((p * Real.log (s.evidence.total + 1) * s.evidence.max) ^ (1 / (3 : ℕ) : ℝ)) := by
  intro undefined
  have hone : 1 ≤ s.evidence.total + 1 := by linarith
  have hproduct := mul_nonneg (mul_nonneg hp0 (Real.log_nonneg hone)) hmax
  have hlogarithm : (Scalar.exact cap undefined).log (s.evidence.total + 1) =
      .ok (Real.log (s.evidence.total + 1)) := if_neg (by linarith)
  rw [exactScore_combined, if_pos (decide_eq_true htotal)]
  refine Run.bind_eq_ok.mpr ⟨p, hp undefined, Run.bind_eq_ok.mpr ⟨_, hlogarithm, ?_⟩⟩
  exact congrArg Except.ok (Stats.geometricMean_eq_rpow cap undefined hproduct)

/-- That of an entity without is zero. -/
theorem hasScore_combined_of_not_pos (h : ¬0 < s.evidence.total) :
    s.HasScore cap .combined 0 := by
  intro undefined
  rw [exactScore_combined, if_neg (mt of_decide_eq_true h)]

/-- The exact combined score where the evidence is not negative in total, which is zero where it is
zero. -/
theorem hasScore_combined {p : ℝ} (hp : s.HasScore cap .place p) (hp0 : 0 ≤ p)
    (htotal : 0 ≤ s.evidence.total) (hmax : 0 ≤ s.evidence.max) : s.HasScore cap .combined
      ((p * Real.log (s.evidence.total + 1) * s.evidence.max) ^ (1 / (3 : ℕ) : ℝ)) := by
  rcases htotal.eq_or_lt with h0 | hpos
  · have hzero :
        (p * Real.log (s.evidence.total + 1) * s.evidence.max) ^ (1 / (3 : ℕ) : ℝ) = 0 := by
      rw [← h0, zero_add, Real.log_one, mul_zero, zero_mul]
      exact Real.zero_rpow (by norm_num)
    rw [hzero]
    exact hasScore_combined_of_not_pos h0.not_lt
  · exact hasScore_combined_of_pos hp hp0 hpos hmax

end Standing

end Corridor
