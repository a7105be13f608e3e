import Corridor.Evidence
import Corridor.Proofs.Number.Sign
import Corridor.Proofs.Number.Total
import Corridor.Proofs.Run

/-!
# Deviations of Bounded Lists

A mean of doubles far below the largest one is no larger than their sum, and so are the squares
of what is left after it is taken off. Hence the deviation of a bounded list has a value, and
that of a list of zeros is zero, exactly.

## Main results

* `exists_deviation`: bounded lists have a deviation.
* `deviation_zeros`: the deviation of zeros.
* `Evidence.exists_summarize`: scores whose sums fit have a summary.
-/

namespace Corridor

open Double

namespace Stats

variable {k m : ℕ} {xs : List Float}

/-- Lists that are short enough have a length in doubles, which is at least one. -/
theorem exists_ofInt_length (hne : xs ≠ []) (hlen : xs.length ≤ 2 ^ m) (hm : m < 1024) :
    ∃ n : Float, Scalar.ofInt xs.length = .ok n ∧ n.isFinite = true ∧
      unitsPerOne ≤ magnitude n := by
  obtain ⟨n, hn, hwithin, hone⟩ := ofInt_eq_ok (n := xs.length) hm (by simpa using hlen)
  refine ⟨n, hn, hwithin.1, hone ?_⟩
  simpa using hne

/-- The mean of a bounded list is bounded by its sum. -/
theorem exists_mean (hne : xs ≠ []) (hxs : ∀ x ∈ xs, Within k x) (hlen : xs.length ≤ 2 ^ m)
    (hm : m < 1024) (hkm : k + m + 5 < 1024 + unitExponent) :
    ∃ c : Float, mean xs = .ok c ∧ Within (k + m) c := by
  obtain ⟨htotal, hwithin⟩ := Total.ofList_bounded hxs hlen hkm
  obtain ⟨n, hn, hfinite, hone⟩ := exists_ofInt_length hne hlen hm
  refine ⟨_, ?_, hwithin.div (by omega) hfinite hone⟩
  rw [mean, hn, show Scalar.total xs = _ from htotal]
  rfl

/-- The deviation of a bounded list from a bounded centre has a value. -/
theorem exists_deviationFrom {centre : Float} (hxs : ∀ x ∈ xs, Within (k + unitExponent) x)
    (hcentre : Within (k + unitExponent) centre) (hlen : xs.length ≤ 2 ^ m)
    (hkm : 2 * (k + 1) + m + 5 < 1024) : ∃ d : Float, deviationFrom centre xs = .ok d := by
  rw [deviationFrom]
  cases xs with
  | nil => exact ⟨_, rfl⟩
  | cons x xs =>
      have hsquares : ∀ y ∈ (x :: xs).map fun x => (x - centre) * (x - centre),
          Within (k + 1 + (k + 1) + unitExponent) y := by
        intro y hy
        obtain ⟨z, hz, rfl⟩ := List.mem_map.mp hy
        have hdiff : Within (k + 1 + unitExponent) (z - centre) := by
          have h := (hxs z hz).sub hcentre (by omega)
          rwa [show k + unitExponent + 1 = k + 1 + unitExponent by omega] at h
        exact hdiff.mul hdiff (by omega)
      obtain ⟨c, hc, -⟩ := exists_mean (by simp) hsquares
        (hlen.trans' (by simp)) (by omega) (by omega)
      refine ⟨_, Run.bind_eq_ok.mpr ⟨c, hc, rfl⟩⟩

/-- **Bounded lists have a deviation.** -/
theorem exists_deviation (hxs : ∀ x ∈ xs, Within (k + unitExponent) x) (hlen : xs.length ≤ 2 ^ m)
    (hkm : 2 * (k + m + 1) + m + 5 < 1024) : ∃ d : Float, deviation xs = .ok d := by
  rw [deviation]
  cases xs with
  | nil => exact ⟨_, rfl⟩
  | cons x xs =>
      obtain ⟨c, hc, hwithin⟩ := exists_mean (by simp) hxs hlen (by omega) (by omega)
      have hcentre : Within (k + m + unitExponent) c := by
        rwa [show k + unitExponent + m = k + m + unitExponent by omega] at hwithin
      obtain ⟨d, hd⟩ := exists_deviationFrom (fun y hy => (hxs y hy).mono (by omega)) hcentre hlen
        hkm
      exact ⟨d, Run.bind_eq_ok.mpr ⟨c, hc, hd⟩⟩

/-! ### Extremes -/

/-- A fold that keeps one of two values ends with a member of the list. -/
theorem foldl_mem {α : Type} {f : α → α → α} (hf : ∀ a b, f a b = a ∨ f a b = b) (a : α)
    (as : List α) : as.foldl f a ∈ a :: as := by
  induction as generalizing a with
  | nil => exact List.mem_singleton_self a
  | cons b bs ih =>
      rw [List.foldl_cons]
      rcases List.mem_cons.mp (ih (f a b)) with hfirst | hlater
      · rw [hfirst]
        rcases hf a b with hkept | hkept
        · rw [hkept]
          exact List.mem_cons_self
        · rw [hkept]
          exact List.mem_cons_of_mem _ List.mem_cons_self
      · exact List.mem_cons_of_mem _ (List.mem_cons_of_mem _ hlater)

theorem greatest_mem (x : Float) (xs : List Float) : greatest x xs ∈ x :: xs :=
  foldl_mem (fun _ _ => (ite_eq_or_eq _ _ _).symm) x xs

theorem least_mem (x : Float) (xs : List Float) : least x xs ∈ x :: xs :=
  foldl_mem (fun _ _ => (ite_eq_or_eq _ _ _).symm) x xs

/-! ### Zeros -/

theorem step_zero : Total.step [] 0 = some [] := by
  decide

/-- The square of the distance from zero to zero. -/
theorem square_zero : (0 - 0) * (0 - 0) = (0 : Float) := by
  decide

theorem sqrt_zero : Float.sqrt 0 = 0 := by
  decide

/-- The total of zeros is zero. -/
theorem total_zeros (n : ℕ) : Total.ofList (List.replicate n 0) = .ok 0 := by
  have hfinite : ∀ x ∈ List.replicate n (0 : Float), x.isFinite = true := by
    intro x hx
    obtain rfl := List.eq_of_mem_replicate hx
    decide
  have hstep : (List.replicate n (0 : Float)).foldlM Total.step [] = some [] := by
    induction n with
    | zero => rfl
    | succ n ih =>
        rw [List.replicate_succ, List.foldlM_cons, step_zero]
        exact ih fun x hx => hfinite x (List.mem_cons_of_mem 0 hx)
  rw [Total.ofList_of_finite hfinite hstep, List.map_replicate, List.sum_replicate, units_zero,
    nsmul_zero]
  exact congrArg Except.ok (eq_of_toBits (by decide))

/-- Zero by a positive number is zero. -/
theorem zero_div_of_pos {n : Float} (hfinite : n.isFinite = true) (hpos : 0 < magnitude n)
    (hsign : isNegative n = false) : 0 / n = 0 := by
  rw [div_eq (by decide) hfinite hpos, magnitude_zero, hsign, isNegative_zero, Nat.zero_mul,
    bne_self_eq_false, ofSignedUnitRatio_zero hpos]

/-- Zero by a number of values is zero. -/
theorem zero_div_of_ofInt {n : ℕ} {c : Float} (h0 : n ≠ 0) (hc : Scalar.ofInt n = .ok c) :
    0 / c = 0 := by
  obtain ⟨hfinite, -, hone⟩ := ofInt_natCast_ranges hc
  have hpos := Double.lt_of_lt_of_le Double.zero_lt_one (hone (Nat.pos_of_ne_zero h0))
  exact zero_div_of_pos hfinite (magnitude_pos_of_pos hpos) (isNegative_of_pos hpos)

/-- The mean of zeros is zero. -/
theorem mean_zeros {n : ℕ} (h0 : n ≠ 0) (hm : m < 1024) (hn : n ≤ 2 ^ m) :
    mean (List.replicate n (0 : Float)) = .ok 0 := by
  obtain ⟨c, hc, -⟩ := ofInt_eq_ok (n := n) hm (by simpa using hn)
  rw [mean, List.length_replicate, hc, show Scalar.total _ = _ from total_zeros n]
  exact congrArg Except.ok (zero_div_of_ofInt h0 hc)

/-- **The deviation of zeros is zero.** -/
theorem deviation_zeros {n : ℕ} (hm : m < 1024) (hn : n ≤ 2 ^ m) :
    deviation (List.replicate n (0 : Float)) = .ok 0 := by
  rcases Nat.eq_zero_or_pos n with rfl | hpos
  · rfl
  have hne : (List.replicate n (0 : Float)).isEmpty = false := by
    rw [List.isEmpty_eq_false_iff]
    simp
    omega
  have hfrom : deviationFrom (0 : Float) (List.replicate n 0) = .ok 0 := by
    rw [deviationFrom, hne]
    simp only [Bool.false_eq_true, if_false, List.map_replicate, square_zero]
    rw [mean_zeros hpos.ne' hm hn]
    exact congrArg Except.ok sqrt_zero
  rw [deviation, hne, mean_zeros hpos.ne' hm hn]
  exact hfrom

end Stats

namespace Evidence

/-- The sums in the summary of a list of scores have values: that of the scores, and that of the
squares of what is left after the mean is taken off. -/
def SumsFit (scores : List Float) : Prop :=
  ∃ total : Float, Scalar.total scores = .ok total ∧
    ∀ count : Float, Scalar.ofInt scores.length = .ok count →
      ∃ squares : Float,
        Scalar.total (scores.map fun s => (s - total / count) * (s - total / count)) = .ok squares

/-- The sums of scores that are all zero fit. -/
theorem sumsFit_zeros (n : ℕ) : SumsFit (List.replicate n 0) := by
  refine ⟨0, Stats.total_zeros n, fun count hcount => ?_⟩
  rw [List.length_replicate] at hcount
  rcases Nat.eq_zero_or_pos n with rfl | hpos
  · exact ⟨0, Stats.total_zeros 0⟩
  · rw [List.map_replicate, Stats.zero_div_of_ofInt hpos.ne' hcount, Stats.square_zero]
    exact ⟨0, Stats.total_zeros n⟩

/-- Scores whose sums fit have a summary. -/
theorem exists_summarize {scores : List Float} {m : ℕ} (h : SumsFit scores)
    (hlen : scores.length ≤ 2 ^ m) (hm : m < 1024) :
    ∃ e : Evidence Float, summarize scores = .ok e := by
  cases scores with
  | nil => exact ⟨nothing, rfl⟩
  | cons s ss =>
      obtain ⟨total, htotal, hsquares⟩ := h
      obtain ⟨n, hn, -⟩ := Stats.exists_ofInt_length (by simp) hlen hm
      obtain ⟨q, hq⟩ := hsquares n hn
      have hmean : Stats.mean ((s :: ss).map fun s => (s - total / n) * (s - total / n)) =
          .ok (q / n) := by
        rw [Stats.mean, hq, List.length_map, hn]
        rfl
      have hdeviation : Stats.deviationFrom (total / n) (s :: ss) = .ok (Scalar.sqrt (q / n)) :=
        Run.bind_eq_ok.mpr ⟨_, hmean, rfl⟩
      have hlength : (ss.length : ℤ) + 1 = (s :: ss).length := by simp
      have hcount : Scalar.ofInt ((ss.length : ℤ) + 1) = .ok n := by rw [hlength, hn]
      refine ⟨⟨total, Stats.greatest s ss, Scalar.sqrt (q / n)⟩, ?_⟩
      rw [summarize, htotal, hcount]
      simp only [bind, Except.bind, hdeviation]
      rfl

end Evidence

end Corridor
