import Corridor.Proofs.Number.Copies
import Corridor.Proofs.Number.Root
import Corridor.Proofs.Stats

/-!
# Deviations of Copies

The mean of copies of one double is their total, rounded once, by their number, rounded once more.
The two roundings need not undo each other: where the total is off by more than half of the last
bits of all copies, the mean is the double next to the copy, and all copies deviate from it by their
last bit. So constant data may have a deviation; it is the last bit of the data, unless the square
of that is out of the range of doubles.

## Main results

* `magnitude_sub_part`: how far the mean of copies is from a copy.
* `map_sqrt_mean_of_two_pow`: the root of the mean square of copies of a power of two.
* `deviation_replicate`, `deviation_replicate_of_representable`: the deviation of copies.
* `Evidence.summarize_replicate`: the evidence of copies of one score.
* `deviation_copies`: all of this together.
-/

namespace Corridor

open Double

namespace Stats

/-! ### Means of copies -/

section

variable {n : ℕ} {count : Float} (hcount : Scalar.ofInt (n : ℤ) = .ok count)
include hcount

/-- The mean of copies is a part of their total. -/
theorem mean_replicate (q : Float) :
    mean (List.replicate n q) = (Scalar.total (List.replicate n q)).map fun s => s / count := by
  rw [mean, List.length_replicate, hcount]
  cases Scalar.total (List.replicate n q) <;> rfl

variable (h0 : 0 < n)
include h0

/-- The mean of zeros is zero, however many there are. -/
theorem mean_copies_zero : mean (List.replicate n (0 : Float)) = .ok 0 := by
  rw [mean_replicate hcount, show Scalar.total _ = _ from total_zeros n]
  exact congrArg Except.ok (zero_div_of_ofInt h0.ne' hcount)

/-- The mean of infinities is the infinity. -/
theorem mean_copies_infinity : mean (List.replicate n infinity) = .ok infinity := by
  rw [mean_replicate hcount, show Scalar.total _ = _ from Total.ofList_replicate_infinity h0]
  exact congrArg Except.ok (infinity_div_count hcount h0)

section

variable {x t : Float} (hx : x.isFinite = true) (ht : Scalar.total (List.replicate n x) = .ok t)
include hx ht

omit hcount in
/-- The total of copies has their sign, and the rounded sum of their magnitudes. -/
theorem of_total_copies : t.isFinite = true ∧ isNegative t = decide (units x < 0) ∧
    magnitude t = rounded (n * magnitude x) 1 := by
  obtain ⟨hfinite, rfl⟩ := Total.isFinite_of_ofList
    (fun y hy => by rwa [List.eq_of_mem_replicate hy]) ht
  have hsign : n * units x < 0 ↔ units x < 0 :=
    smul_neg_iff_of_pos_left (Int.natCast_pos.mpr h0)
  have habs : (n * units x).natAbs = n * magnitude x := by
    rw [Int.natAbs_mul, Int.natAbs_natCast, natAbs_units]
  rw [List.map_replicate, List.sum_replicate, nsmul_eq_mul, ofUnits, ofUnitRatio, habs] at hfinite ⊢
  refine ⟨hfinite, ?_, magnitude_ofSignedUnitRatio _ _ Nat.one_pos
    ((isFinite_ofSignedUnitRatio _ _ Nat.one_pos).mp hfinite)⟩
  rw [isNegative_ofSignedUnitRatio _ _ Nat.one_pos]
  exact decide_eq_decide.mpr hsign

/-- So has a part of the total, rounded once more. -/
theorem of_part_copies : (t / count).isFinite = true ∧
    units (t / count) = signed (decide (units x < 0)) (magnitude (t / count)) ∧
    magnitude (t / count) = rounded (rounded (n * magnitude x) 1) (rounded n 1) := by
  obtain ⟨hfinite, hsign, hmagnitude⟩ := of_total_copies h0 hx ht
  have hpart := isFinite_div hfinite (isFinite_count hcount) ((ofInt_natCast_ranges hcount).2.2 h0)
  have hrounded := rounded_pos h0
  rw [div_count hcount h0 hfinite, hsign, hmagnitude] at hpart ⊢
  refine ⟨hpart, ?_, magnitude_ofSignedUnitRatio _ _ hrounded
    ((isFinite_ofSignedUnitRatio _ _ hrounded).mp hpart)⟩
  rw [units_eq_signed, isNegative_ofSignedUnitRatio _ _ hrounded]

/-- What a copy is less the part. -/
theorem sub_part_copies : (x - t / count).isFinite = true ∧ magnitude (x - t / count) =
    rounded ((magnitude x : ℤ) - rounded (rounded (n * magnitude x) 1) (rounded n 1)).natAbs 1 := by
  obtain ⟨hfinite, hunits, hmagnitude⟩ := of_part_copies hcount h0 hx ht
  have hxu : units x = signed (decide (units x < 0)) (magnitude x) := by
    have habs := natAbs_units x
    rw [signed]
    split_ifs with h
    · rw [decide_eq_true_eq] at h
      omega
    · rw [decide_eq_true_eq] at h
      omega
  rw [← hmagnitude]
  exact sub_of_signed hx hfinite hxu hunits

/-- With fewer copies than a double has significands, it is nothing or the last bit. -/
theorem magnitude_sub_part (hn : n ≤ 2 ^ 53) : magnitude (x - t / count) =
    if 2 * roundingError (n * magnitude x) < n * lastBit (magnitude x) then 0
    else lastBit (magnitude x) := by
  have hrep := representable_magnitude x
  rw [(sub_part_copies hcount h0 hx ht).2, rounded_of_representable (representable_of_le hn),
    natAbs_sub_rounded_part h0 hrep hn]
  split_ifs
  · exact rounded_zero 1
  · exact rounded_of_representable (representable_two_pow _)

end

/-- The mean of copies of a positive double is positive. -/
theorem mean_copies_pos {q r : Float} (hq : 0 < q) (h : mean (List.replicate n q) = .ok r) :
    0 < r := by
  cases hfinite : q.isFinite with
  | false =>
      rw [eq_infinity_of_nonneg (Double.le_of_lt hq) hfinite, mean_copies_infinity hcount h0] at h
      obtain rfl := Except.ok.inj h
      decide
  | true =>
      rw [mean_replicate hcount] at h
      cases htotal : Scalar.total (List.replicate n q) with
      | error f =>
          rw [htotal] at h
          cases h
      | ok s =>
          rw [htotal] at h
          obtain rfl := Except.ok.inj h
          obtain ⟨hs, hsign, hmagnitude⟩ := of_total_copies h0 hfinite htotal
          rw [decide_eq_false (not_lt.mpr (pos_iff.mp hq).2.le)] at hsign
          -- the total is at least that of as many units, whose part is one
          have hle := rounded_mono Nat.one_pos (Nat.le_mul_of_pos_right n (magnitude_pos_of_pos hq))
          have hone : 2 ^ 0 ≤ rounded (magnitude s) (rounded n 1) := by
            rw [hmagnitude]
            exact two_pow_le_rounded (rounded_pos h0) (by rwa [Nat.pow_zero, Nat.one_mul])
          change 0 < s / count
          rw [div_count hcount h0 hs, hsign]
          exact ofSignedUnitRatio_pos (rounded_pos h0) ((Nat.two_pow_pos 0).trans_le hone)

/-- The mean of copies whose multiples are all doubles is the copy, if their sum is in range. -/
theorem mean_copies_exact {q : Float} {w : ℕ} (hn : n ≤ 2 ^ 53) (hq : q.isFinite = true)
    (hw : units q = w) (hpos : 0 < w) (hrep : ∀ m ≤ n, Representable (m * w)) :
    mean (List.replicate n q) =
      if n * w < unitsBound then .ok (ofUnits w) else .error .partialTooLarge := by
  rw [mean_replicate hcount,
    show Scalar.total _ = _ from Total.ofList_replicate hq hw hpos h0 hrep]
  split_ifs with hlt
  · refine congrArg Except.ok ?_
    have hexact := rounded_of_representable (hrep n le_rfl)
    have hround : rounded (n * w) 1 < unitsBound := by rwa [hexact]
    have hfinite : (ofUnits (n * w : ℕ)).isFinite = true := by
      rw [ofUnits_natCast]
      exact (isFinite_ofSignedUnitRatio _ _ Nat.one_pos).mpr hround
    change ofUnits (n * w : ℕ) / count = ofUnits w
    rw [div_count hcount h0 hfinite, ofUnits_natCast, ofUnits_natCast,
      isNegative_ofSignedUnitRatio _ _ Nat.one_pos,
      magnitude_ofSignedUnitRatio _ _ Nat.one_pos hround, hexact,
      rounded_of_representable (representable_of_le hn)]
    refine ofSignedUnitRatio_congr false h0 Nat.one_pos ?_
    exact rounded_congr h0 Nat.one_pos (by ring)
  · rfl

/-! ### Roots of mean squares -/

variable {e : Float} (he : e.isFinite = true)
include he

/-- The root of the mean square of copies is zero just if the square is rounded to zero. -/
theorem map_sqrt_mean_eq_zero_iff :
    (mean (List.replicate n (e * e))).map Float.sqrt = .ok 0 ↔
      2 * magnitude e ^ 2 ≤ unitsPerOne := by
  constructor
  · intro h
    by_contra hlt
    have hsquare := Double.mul_self_pos he (not_le.mp hlt)
    cases hmean : mean (List.replicate n (e * e)) with
    | error f =>
        rw [hmean] at h
        cases h
    | ok r =>
        rw [hmean] at h
        have hroot := Double.sqrt_pos (mean_copies_pos hcount h0 hsquare hmean)
        rw [Except.ok.inj h] at hroot
        exact absurd hroot (by decide)
  · intro h
    rw [Double.mul_self_eq_zero he h, mean_copies_zero hcount h0]
    exact congrArg Except.ok sqrt_zero

/-- Where the square of a power of two is in the range of doubles, the sum of the squares need not
be. -/
theorem map_sqrt_mean_of_lt {d k : ℕ} (hn : n ≤ 2 ^ 53) (hd : magnitude e = 2 ^ d)
    (hk : k + unitExponent = 2 * d) (hsmall : k < 1024 + unitExponent) :
    (mean (List.replicate n (e * e))).map Float.sqrt =
      if 2 ^ (1024 + 2 * unitExponent) ≤ n * (2 ^ d) ^ 2 then .error .partialTooLarge
      else .ok (ofUnits (2 ^ d : ℕ)) := by
  obtain ⟨hfinite, hunits⟩ := ofUnits_two_pow hsmall
  have hfits : n * 2 ^ k < unitsBound ↔ n * (2 ^ d) ^ 2 < 2 ^ (1024 + 2 * unitExponent) := by
    rw [← hd, magnitude_sq_of_two_pow hd hk, unitsPerOne_eq, ← Nat.mul_assoc, Nat.two_mul,
      ← Nat.add_assoc, Nat.pow_add 2 (1024 + unitExponent), unitsBound,
      Nat.mul_lt_mul_right (Nat.two_pow_pos _)]
  have hmean := mean_copies_exact hcount h0 hn hfinite hunits (Nat.two_pow_pos k) fun m hm =>
    (representable_mul_two_pow_iff m k).mpr (representable_of_le (hm.trans hn))
  rw [mul_self_of_two_pow he hd hk, hmean]
  by_cases hlarge : 2 ^ (1024 + 2 * unitExponent) ≤ n * (2 ^ d) ^ 2
  · rw [if_pos hlarge, if_neg (mt hfits.mp hlarge.not_gt)]
    rfl
  · rw [if_neg hlarge, if_pos (hfits.mpr (Nat.lt_of_not_le hlarge))]
    exact congrArg Except.ok (sqrt_of_two_pow hd hk hsmall)

/-- The root of the mean square of `n` copies of a power of two `p` in units, as doubles have it:
the power again, unless its square is rounded to zero or to the infinity, or the sum of the squares
has no double. -/
def rootMeanSquare (n p : ℕ) : Except ArithmeticFault Float :=
  if p < 2 ^ 537 then .ok 0
  else if 2 ^ (512 + unitExponent) ≤ p then .ok infinity
  else if 2 ^ (1024 + 2 * unitExponent) ≤ n * p ^ 2 then .error .partialTooLarge
  else .ok (ofUnits p)

/-- **The root of the mean square** of copies of a power of two. -/
theorem map_sqrt_mean_of_two_pow {d : ℕ} (hn : n ≤ 2 ^ 53) (hd : magnitude e = 2 ^ d) :
    (mean (List.replicate n (e * e))).map Float.sqrt = rootMeanSquare n (2 ^ d) := by
  have hunit : unitExponent = 1074 := rfl
  rw [rootMeanSquare]
  by_cases hzero : 2 ^ d < 2 ^ 537
  · have hlow := (Nat.pow_lt_pow_iff_right Nat.one_lt_two).mp hzero
    rw [if_pos hzero, map_sqrt_mean_eq_zero_iff hcount h0 he, hd, ← Nat.pow_mul, ← Nat.pow_succ',
      unitsPerOne_eq]
    exact Nat.pow_le_pow_right Nat.two_pos (by omega)
  rw [if_neg hzero]
  have hlow := (Nat.pow_le_pow_iff_right Nat.one_lt_two).mp (Nat.le_of_not_lt hzero)
  obtain ⟨k, hk⟩ : ∃ k, k + unitExponent = 2 * d := ⟨_, Nat.sub_add_cancel (by omega)⟩
  by_cases hinfinity : 2 ^ (512 + unitExponent) ≤ 2 ^ d
  · have hhigh := (Nat.pow_le_pow_iff_right Nat.one_lt_two).mp hinfinity
    rw [if_pos hinfinity, mul_self_eq_infinity he hd hk (by omega), mean_copies_infinity hcount h0]
    exact congrArg Except.ok (by decide)
  · have hhigh := (Nat.pow_lt_pow_iff_right Nat.one_lt_two).mp (Nat.lt_of_not_le hinfinity)
    rw [if_neg hinfinity, map_sqrt_mean_of_lt hcount h0 he hn hd hk (by omega)]

end

/-! ### Deviations of copies -/

section

variable {n : ℕ} {x t : Float} (h0 : 0 < n) (ht : Scalar.total (List.replicate n x) = .ok t)
include h0 ht

/-- The deviation of copies is the root of the mean square of copies. -/
theorem deviation_eq_map_sqrt {count : Float} (hcount : Scalar.ofInt (n : ℤ) = .ok count) :
    deviation (List.replicate n x) =
      (mean (List.replicate n ((x - t / count) * (x - t / count)))).map Float.sqrt := by
  have hne : (List.replicate n x).isEmpty = false := by simpa using h0.ne'
  have hmean : mean (List.replicate n x) = .ok (t / count) := by
    rw [mean_replicate hcount, ht]
    rfl
  rw [deviation, hne, hmean]
  change deviationFrom (t / count) (List.replicate n x) = _
  rw [deviationFrom, hne]
  simp only [Bool.false_eq_true, if_false, List.map_replicate]
  cases mean (List.replicate n ((x - t / count) * (x - t / count))) <;> rfl

variable (hx : x.isFinite = true)
include hx

/-- It is zero just if the mean is off the copies by so little that the square of that is rounded
to zero. -/
theorem deviation_replicate_eq_zero_iff {count : Float}
    (hcount : Scalar.ofInt (n : ℤ) = .ok count) :
    deviation (List.replicate n x) = .ok 0 ↔ 2 * magnitude (x - t / count) ^ 2 ≤ unitsPerOne := by
  rw [deviation_eq_map_sqrt h0 ht hcount]
  exact map_sqrt_mean_eq_zero_iff hcount h0 (sub_part_copies hcount h0 hx ht).1

/-- The deviation of no more copies than a double has significands. -/
theorem deviation_replicate (hn : n ≤ 2 ^ 53) : deviation (List.replicate n x) =
    if 2 * roundingError (n * magnitude x) < n * lastBit (magnitude x) then .ok 0
    else rootMeanSquare n (lastBit (magnitude x)) := by
  obtain ⟨count, hcount, -⟩ := ofInt_eq_ok (n := n) (k := 53) (by decide) (by simpa using hn)
  obtain ⟨hfinite, -⟩ := sub_part_copies hcount h0 hx ht
  have hoff := magnitude_sub_part hcount h0 hx ht hn
  by_cases hnear : 2 * roundingError (n * magnitude x) < n * lastBit (magnitude x)
  · rw [if_pos hnear] at hoff
    rw [if_pos hnear, deviation_replicate_eq_zero_iff h0 ht hx hcount, hoff]
    exact Nat.zero_le _
  · rw [if_neg hnear] at hoff
    rw [if_neg hnear, deviation_eq_map_sqrt h0 ht hcount]
    exact map_sqrt_mean_of_two_pow hcount h0 hfinite hn hoff

/-- Copies whose sum is a double do not deviate. -/
theorem deviation_replicate_of_representable (hn : n ≤ 2 ^ 53)
    (hsum : Representable (n * magnitude x)) : deviation (List.replicate n x) = .ok 0 := by
  rw [deviation_replicate h0 ht hx hn, roundingError_of_representable hsum,
    if_pos (mul_lastBit_pos h0)]

end

/-- The greatest of copies is the copy. -/
theorem greatest_replicate {α : Type} [Scalar α] (x : α) (n : ℕ) :
    greatest x (List.replicate n x) = x := by
  have hself : Scalar.larger x x = x := by rw [Scalar.larger, ite_self]
  rw [greatest]
  induction n with
  | zero => rfl
  | succ n ih => rw [List.replicate_succ, List.foldl_cons, hself, ih]

end Stats

namespace Evidence

variable {α : Type} [Scalar α]

/-- The evidence of scores that have a total. -/
theorem summarize_of_total {s t : α} {ss : List α} (ht : Scalar.total (s :: ss) = .ok t) :
    summarize (s :: ss) = (Stats.deviation (s :: ss)).map (⟨t, Stats.greatest s ss, ·⟩) := by
  have hlength : ((s :: ss).length : ℤ) = ss.length + 1 := by simp
  have hne : (s :: ss).isEmpty = false := rfl
  rw [summarize, Stats.deviation, Stats.mean, ht, hlength, hne]
  cases (Scalar.ofInt (ss.length + 1) : Except ArithmeticFault α) with
  | error f => rfl
  | ok count =>
      change Except.bind (Stats.deviationFrom (t / count) (s :: ss)) _ =
        (Stats.deviationFrom (t / count) (s :: ss)).map _
      cases Stats.deviationFrom (t / count) (s :: ss) <;> rfl

/-- The evidence of copies of a score. -/
theorem summarize_replicate {n : ℕ} {x t : α} (h0 : 0 < n)
    (ht : Scalar.total (List.replicate n x) = .ok t) :
    summarize (List.replicate n x) = (Stats.deviation (List.replicate n x)).map (⟨t, x, ·⟩) := by
  obtain ⟨m, rfl⟩ := Nat.exists_eq_succ_of_ne_zero h0.ne'
  rw [List.replicate_succ] at ht ⊢
  rw [summarize_of_total ht, Stats.greatest_replicate]

end Evidence

namespace Stats

/-- **Copies deviate by nothing or by their last bit.** The evidence of copies of a finite score
that have a total is the total, the score and the deviation of the copies. The deviation is zero
just if the mean, which is rounded twice, is off the score by so little that the square of that is
rounded to zero. Of at most `2 ^ 53` copies, the total tells which: the deviation is zero if the
total is off by less than half of the last bits of all copies, and otherwise it is the root of the
mean square of their last bits. -/
theorem deviation_copies {n : ℕ} {x t : Float} (h0 : 0 < n) (hx : x.isFinite = true)
    (ht : Scalar.total (List.replicate n x) = .ok t) :
    Evidence.summarize (List.replicate n x) =
      (deviation (List.replicate n x)).map (fun d => ⟨t, x, d⟩) ∧
    (∀ count : Float, Scalar.ofInt (n : ℤ) = .ok count →
      (deviation (List.replicate n x) = .ok 0 ↔
        2 * magnitude (x - t / count) ^ 2 ≤ unitsPerOne)) ∧
    (n ≤ 2 ^ 53 → deviation (List.replicate n x) =
      if 2 * roundingError (n * magnitude x) < n * lastBit (magnitude x) then .ok 0
      else rootMeanSquare n (lastBit (magnitude x))) :=
  ⟨Evidence.summarize_replicate h0 ht,
    fun _ hcount => deviation_replicate_eq_zero_iff h0 ht hx hcount,
    deviation_replicate h0 ht hx⟩

/-- The total of three copies of a tenth is off by more than half of their last bits, and the square
of the last bit of a tenth is a double. -/
theorem total_tenths : Scalar.total (List.replicate 3 (0.1 : Float)) = .ok 0.30000000000000004 ∧
    ¬ 2 * roundingError (3 * magnitude 0.1) < 3 * lastBit (magnitude 0.1) ∧
    rootMeanSquare 3 (lastBit (magnitude 0.1)) = .ok 1.3877787807814457e-17 := by
  refine ⟨?_, by decide +kernel, ?_⟩
  · obtain ⟨ps, hps⟩ : ∃ ps, (List.replicate 3 (0.1 : Float)).foldlM Total.step [] = some ps :=
      Option.isSome_iff_exists.mp (by decide +kernel)
    refine (Total.ofList_of_finite (by decide) hps).trans (congrArg Except.ok ?_)
    decide +kernel
  · rw [rootMeanSquare, if_neg (by decide +kernel), if_neg (by decide +kernel),
      if_neg (by decide +kernel)]
    exact congrArg Except.ok (by decide +kernel)

/-- Three copies of a tenth deviate by its last bit. -/
theorem deviation_copies_tenths : ∃ t : Float,
    0 < 3 ∧ (0.1 : Float).isFinite = true ∧ Scalar.total (List.replicate 3 (0.1 : Float)) = .ok t ∧
      Evidence.summarize (List.replicate 3 (0.1 : Float)) =
        .ok ⟨t, 0.1, 1.3877787807814457e-17⟩ := by
  obtain ⟨htotal, hoff, hroot⟩ := total_tenths
  obtain ⟨hevidence, -, hdeviation⟩ := deviation_copies (n := 3) (by decide)
    (by decide : (0.1 : Float).isFinite = true) htotal
  refine ⟨_, by decide, by decide, htotal, ?_⟩
  rw [hevidence, hdeviation (by decide), if_neg hoff, hroot]
  rfl

/-- Constant data whose deviation is positive, as that of the evidence is. -/
theorem deviation_ne_zero_tenths :
    (∃ t, Scalar.total [(0.1 : Float), 0.1, 0.1] = .ok t ∧ t.isFinite = true) ∧
      ∃ d, deviation [(0.1 : Float), 0.1, 0.1] = .ok d ∧ 0 < d ∧
        ∃ e, Evidence.summarize [(0.1 : Float), 0.1, 0.1] = .ok e ∧ e.deviation = d := by
  obtain ⟨htotal, hoff, hroot⟩ := total_tenths
  have hdeviation := deviation_replicate (by decide) htotal (by decide) (by decide)
  rw [if_neg hoff, hroot] at hdeviation
  have hevidence := Evidence.summarize_replicate (by decide) htotal
  rw [hdeviation] at hevidence
  exact ⟨⟨_, htotal, by decide⟩, _, hdeviation, by decide +kernel, _, hevidence, rfl⟩

end Stats

end Corridor
