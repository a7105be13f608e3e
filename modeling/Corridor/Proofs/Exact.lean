import Corridor.Evidence
import Corridor.Number.Double
import Corridor.Proofs.Run
import Mathlib.Analysis.SpecialFunctions.Pow.Real

/-!
# Statistics in Exact Arithmetic

Over the real numbers the operations of a `Scalar` are the exact ones, and the formulas of the
statistics are the textbook ones.

## Main results

* `mean_real`, `deviation_real`: means and standard deviations.
* `deviation_of_perm`: the population standard deviation of a function on a finite set.
* `populationDeviation_eq_zero_iff`: when it is zero.
* `combined_append`, `combined_of_perm`: combining deviations in any nesting and any order.
* `Evidence.exists_summarize_append`: the summary of two lists of scores against the merge of two.
-/

namespace Corridor

/-- The real number that a finite double stands for. -/
noncomputable def Double.toReal (x : Float) : ℝ := units x / unitsPerOne

namespace Stats

/-- The mean of real numbers: their sum by how many they are. -/
noncomputable def average (xs : List ℝ) : ℝ := xs.sum / xs.length

/-- The standard deviation of real numbers: the root of the mean square of what is left after
their mean is taken off. -/
noncomputable def standardDeviation (xs : List ℝ) : ℝ :=
  Real.sqrt (average (xs.map fun x => (x - average xs) * (x - average xs)))

/-- The population standard deviation of the values of a function on a finite set. -/
noncomputable def populationDeviation {ι : Type} (s : Finset ι) (f : ι → ℝ) : ℝ :=
  Real.sqrt ((∑ i ∈ s, (f i - (∑ j ∈ s, f j) / s.card) ^ 2) / s.card)

/-- The standard deviation of the values of a function, in any order. -/
theorem standardDeviation_of_perm {ι : Type} {s : Finset ι} {f : ι → ℝ} {xs : List ℝ}
    (h : xs.Perm (s.toList.map f)) : standardDeviation xs = populationDeviation s f := by
  have hlength : xs.length = s.card := by rw [h.length_eq, List.length_map, Finset.length_toList]
  have haverage : average xs = (∑ i ∈ s, f i) / s.card := by
    rw [average, h.sum_eq, Finset.sum_map_toList, hlength]
  rw [standardDeviation, populationDeviation]
  rw [haverage, average, (h.map _).sum_eq, List.length_map, hlength, List.map_map]
  simp only [Function.comp_def, Finset.sum_map_toList, pow_two]

/-- A population standard deviation is zero just if all values are the same. -/
theorem populationDeviation_eq_zero_iff {ι : Type} {s : Finset ι} {f : ι → ℝ} :
    populationDeviation s f = 0 ↔ ∀ i ∈ s, ∀ j ∈ s, f i = f j := by
  have hsquares : ∀ i ∈ s, 0 ≤ (f i - (∑ j ∈ s, f j) / s.card) ^ 2 := fun i _ => sq_nonneg _
  rw [populationDeviation, Real.sqrt_eq_zero (div_nonneg (Finset.sum_nonneg hsquares)
    (Nat.cast_nonneg _)), div_eq_zero_iff, Finset.sum_eq_zero_iff_of_nonneg hsquares]
  simp only [sq_eq_zero_iff, sub_eq_zero, Nat.cast_eq_zero, Finset.card_eq_zero]
  constructor
  · rintro (hmean | rfl) i hi j hj
    · rw [hmean i hi, hmean j hj]
    · exact absurd hi (Finset.notMem_empty i)
  · intro hsame
    refine .inl fun i hi => ?_
    have hcard : (s.card : ℝ) ≠ 0 := Nat.cast_ne_zero.mpr (Finset.card_ne_zero_of_mem hi)
    rw [Finset.sum_congr rfl fun j hj => hsame j hj i hi, Finset.sum_const, nsmul_eq_mul,
      mul_div_cancel_left₀ _ hcard]

end Stats

open Classical in
/-- The real numbers, on which only a logarithm fails. A formula without a value gives zero. -/
noncomputable instance : Scalar ℝ where
  zero := 0
  one := 1
  half := 1 / 2
  largest := 2 ^ 1024 - 2 ^ 971
  undefined := 0
  lt a b := decide (a < b)
  le a b := decide (a ≤ b)
  ofInt n := .ok n
  quotient a b := .ok (a / b)
  total xs := .ok xs.sum
  sqrt := Real.sqrt
  log x := if x ≤ 0 then .error .logarithmDomain else .ok (Real.log x)
  exp x := .ok (Real.exp x)
  root x n := x ^ (1 / n : ℝ)
  floor x := ⌊x⌋

/-- Quotients are those of the real numbers, whatever other quotients are in scope. -/
@[reducible] noncomputable def divReal : Div ℝ := Real.instDivInvMonoid.toDiv

theorem Scalar.larger_real (a b : ℝ) : Scalar.larger a b = max a b := by
  rw [Scalar.larger, max_def_lt]
  by_cases h : a < b <;> simp [Scalar.lt, h]

namespace Stats

theorem mean_real (xs : List ℝ) : mean xs = .ok (average xs) := by
  rw [average, ← Int.cast_natCast xs.length]
  rfl

/-- The exact deviation from the mean. -/
theorem deviationFrom_real {xs : List ℝ} (h : xs ≠ []) :
    deviationFrom (average xs) xs = .ok (standardDeviation xs) := by
  rw [deviationFrom, if_neg (by simpa using h)]
  exact Run.bind_eq_ok.mpr ⟨_, mean_real _, rfl⟩

/-- **The exact deviation** is the standard deviation. -/
theorem deviation_real (xs : List ℝ) : deviation xs = .ok (standardDeviation xs) := by
  rw [deviation]
  by_cases hempty : xs.isEmpty = true
  · rw [if_pos hempty, List.isEmpty_iff.mp hempty]
    simp [standardDeviation, average, Scalar.zero]
    rfl
  · rw [if_neg hempty, mean_real]
    exact deviationFrom_real (by simpa using hempty)

/-- The exact deviation of the values of a function, in any order. -/
theorem deviation_of_perm {ι : Type} {s : Finset ι} {f : ι → ℝ} {xs : List ℝ}
    (h : xs.Perm (s.toList.map f)) : deviation xs = .ok (populationDeviation s f) := by
  rw [deviation_real, standardDeviation_of_perm h]

theorem combineDeviations_real (a b : ℝ) : combineDeviations a b = Real.sqrt (a * a + b * b) := rfl

/-- What is left of deviations that are combined one after the other: the root of the sum of their
squares, but one alone as it is. -/
noncomputable def combined : List ℝ → ℝ
  | [x] => x
  | xs => Real.sqrt (xs.map fun x => x * x).sum

theorem combined_of_length {xs : List ℝ} (h : xs.length ≠ 1) :
    combined xs = Real.sqrt (xs.map fun x => x * x).sum := by
  match xs with
  | [] => rfl
  | [x] => exact absurd rfl h
  | x :: y :: xs => rfl

theorem sum_squares_nonneg (xs : List ℝ) : 0 ≤ (xs.map fun x => x * x).sum := by
  refine List.sum_nonneg fun y hy => ?_
  obtain ⟨x, -, rfl⟩ := List.mem_map.mp hy
  exact mul_self_nonneg x

/-- Whatever their number, the squares add up. -/
theorem combined_mul_self (xs : List ℝ) :
    combined xs * combined xs = (xs.map fun x => x * x).sum := by
  by_cases h : xs.length = 1
  · obtain ⟨x, rfl⟩ := List.length_eq_one_iff.mp h
    simp [combined]
  · rw [combined_of_length h, Real.mul_self_sqrt (sum_squares_nonneg xs)]

/-- What is left of two lists combines to what is left of both. -/
theorem combined_append {xs ys : List ℝ} (hx : xs ≠ []) (hy : ys ≠ []) :
    combined (xs ++ ys) = combineDeviations (combined xs) (combined ys) := by
  have hlength : (xs ++ ys).length ≠ 1 := by
    have := List.length_pos_iff.mpr hx
    have := List.length_pos_iff.mpr hy
    rw [List.length_append]
    omega
  rw [combined_of_length hlength, combineDeviations_real, combined_mul_self, combined_mul_self,
    List.map_append, List.sum_append]

/-- The order in which deviations are combined does not matter. -/
theorem combined_of_perm {xs ys : List ℝ} (h : xs.Perm ys) : combined xs = combined ys := by
  by_cases hlength : xs.length = 1
  · obtain ⟨x, rfl⟩ := List.length_eq_one_iff.mp hlength
    rw [List.singleton_perm.mp h]
  · rw [combined_of_length hlength, combined_of_length (h.length_eq ▸ hlength), (h.map _).sum_eq]

/-! ### Greatest values -/

theorem foldl_larger_real (a b : ℝ) (xs : List ℝ) :
    xs.foldl Scalar.larger (max a b) = max a (xs.foldl Scalar.larger b) := by
  induction xs generalizing b with
  | nil => rfl
  | cons x xs ih =>
      rw [List.foldl_cons, List.foldl_cons, Scalar.larger_real, Scalar.larger_real, max_assoc, ih]

/-- The greatest of a list is at least what any of it is. -/
theorem le_greatest_real {a x : ℝ} {xs : List ℝ} :
    a ≤ greatest x xs ↔ ∃ y ∈ x :: xs, a ≤ y := by
  rw [greatest]
  induction xs generalizing x with
  | nil => simp
  | cons y xs ih =>
      rw [List.foldl_cons, ih]
      simp only [Scalar.larger_real, List.exists_mem_cons_iff, le_max_iff, or_assoc]

/-- The greatest of two lists together. -/
theorem greatest_append_real (x y : ℝ) (xs ys : List ℝ) :
    greatest x (xs ++ y :: ys) = max (greatest x xs) (greatest y ys) := by
  rw [greatest, List.foldl_append, List.foldl_cons, Scalar.larger_real, foldl_larger_real]
  rfl

end Stats

namespace Evidence

/-- **The exact summary** of scores: their sum, the greatest of them and their deviation. -/
theorem summarize_real (x : ℝ) (xs : List ℝ) :
    summarize (x :: xs) =
      .ok ⟨(x :: xs).sum, Stats.greatest x xs, Stats.standardDeviation (x :: xs)⟩ := by
  have hmean : (x :: xs).sum / (((xs.length : ℤ) + 1 : ℤ) : ℝ) = Stats.average (x :: xs) := by
    rw [Stats.average, List.length_cons]
    push_cast
    rfl
  have hdeviation := Stats.deviationFrom_real (List.cons_ne_nil x xs)
  rw [← hmean] at hdeviation
  refine Run.bind_eq_ok.mpr ⟨(x :: xs).sum, rfl, Run.bind_eq_ok.mpr ⟨_, rfl, ?_⟩⟩
  exact Run.bind_eq_ok.mpr ⟨_, hdeviation, rfl⟩

/-- The exact summary of two lists of scores has the total and the greatest score of the merge of
theirs. -/
theorem exists_summarize_append {xs ys : List ℝ} (hx : xs ≠ []) (hy : ys ≠ []) :
    ∃ a b e, summarize xs = .ok a ∧ summarize ys = .ok b ∧ summarize (xs ++ ys) = .ok e ∧
      e.total = (a.merge b).total ∧ e.max = (a.merge b).max := by
  obtain ⟨x, xs, rfl⟩ := List.exists_cons_of_ne_nil hx
  obtain ⟨y, ys, rfl⟩ := List.exists_cons_of_ne_nil hy
  refine ⟨_, _, _, summarize_real x xs, summarize_real y ys, summarize_real x (xs ++ y :: ys),
    ?_, ?_⟩
  · change (x :: xs ++ y :: ys).sum = (x :: xs).sum + (y :: ys).sum
    rw [List.sum_append]
  · rw [Stats.greatest_append_real, merge, Scalar.larger_real]

end Evidence

end Corridor
