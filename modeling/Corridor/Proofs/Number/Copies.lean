import Corridor.Proofs.Number.TotalRange

/-!
# Copies of a Double

A sum of copies of one double is rounded to a total, and a part of the total, as many copies a part,
is rounded again. The total is off by less than the last bit of a copy, taken as often as there are
copies, so the part is the copy or one of the two doubles next to it: the copy if the total is off
by less than half of that, and it is never off by exactly half. Where the total is exact, as that of
copies of a power of two is, so is the part.

## Main results

* `Double.natAbs_sub_rounded_part`: how far a part of a rounded sum of copies is from a copy.
* `Double.div_count`, `Double.sub_of_signed`: parts of doubles, and differences from them.
* `Total.ofList_replicate`: the total of copies whose multiples are all doubles.
* `Total.ofList_replicate_infinity`: the total of infinities.
-/

namespace Corridor

namespace Double

variable {x y : Float}

/-! ### Parts of sums -/

section

variable {n s q r : ℕ} (h0 : 0 < n) (hq : q < 2 ^ 53) (hs : 2 ^ 52 ≤ q ∨ s = 0)
  (hr : r < n * 2 ^ s)
include h0 hr

theorem div_part : (q * (n * 2 ^ s) + r) / (n * 2 ^ s) = q ∧
    (q * (n * 2 ^ s) + r) % (n * 2 ^ s) = r := by
  rw [Nat.mul_comm q]
  refine ⟨?_, ?_⟩
  · rw [Nat.mul_add_div (Nat.mul_pos h0 (Nat.two_pow_pos s)), Nat.div_eq_of_lt hr, Nat.add_zero]
  · rw [Nat.mul_add_mod, Nat.mod_eq_of_lt hr]

include hq hs

theorem droppedBits_part : droppedBits ((q * (n * 2 ^ s) + r) / n) = s := by
  have hsplit : q * (n * 2 ^ s) = q * 2 ^ s * n := by ring
  refine droppedBits_eq (hs.imp_left fun hq => ?_) ?_
  · rw [Nat.le_div_iff_mul_le h0, Nat.pow_add, hsplit]
    exact (Nat.mul_le_mul_right n (Nat.mul_le_mul_right _ hq)).trans (Nat.le_add_right _ r)
  · have hnext := Nat.mul_le_mul_right (n * 2 ^ s) (Nat.succ_le_of_lt hq)
    rw [Nat.succ_mul] at hnext
    rw [Nat.div_lt_iff_lt_mul h0, Nat.pow_add]
    calc q * (n * 2 ^ s) + r < q * (n * 2 ^ s) + n * 2 ^ s := Nat.add_lt_add_left hr _
      _ ≤ 2 ^ 53 * (n * 2 ^ s) := hnext
      _ = 2 ^ 53 * 2 ^ s * n := by ring

/-- A part of a sum is rounded down if the rest is less than half of the last bit, taken as often
as there are parts, and up if it is more. -/
theorem rounded_part (hne : 2 * r ≠ n * 2 ^ s) :
    rounded (q * (n * 2 ^ s) + r) n = (if 2 * r < n * 2 ^ s then q else q + 1) * 2 ^ s := by
  obtain ⟨hdiv, hmod⟩ := div_part (q := q) h0 hr
  rw [rounded, droppedBits_part h0 hq hs hr, roundQuotient, hdiv, hmod]
  split_ifs with hdown hup
  · rfl
  · rfl
  · omega

end

/-! ### Sums of copies -/

/-- What the last bit of a magnitude counts that a double keeps. -/
def lastBit (n : ℕ) : ℕ := 2 ^ droppedBits n

/-- How far a magnitude is from the double nearest to it. -/
def roundingError (n : ℕ) : ℕ := ((n : ℤ) - rounded n 1).natAbs

theorem roundingError_of_representable {n : ℕ} (h : Representable n) : roundingError n = 0 := by
  rw [roundingError, rounded_of_representable h, sub_self, Int.natAbs_zero]

theorem two_mul_roundingError_le (n : ℕ) : 2 * roundingError n ≤ lastBit n := by
  obtain ⟨hlow, hhigh⟩ := rounded_error n
  rw [roundingError, lastBit]
  omega

section

variable {n u : ℕ} (h0 : 0 < n)
include h0

theorem mul_lastBit_pos : 0 < n * lastBit u := Nat.mul_pos h0 (Nat.two_pow_pos _)

/-- A sum of copies is off by less than their last bits. -/
theorem roundingError_mul_lt : roundingError (n * u) < n * lastBit u := by
  have herror := two_mul_roundingError_le (n * u)
  have hpos := mul_lastBit_pos (u := u) h0
  rw [lastBit] at herror
  by_cases hbits : droppedBits (n * u) = 0
  · rw [hbits] at herror
    omega
  · have hsum := two_pow_le_of_droppedBits hbits
    have hcopy := Nat.mul_lt_mul_of_pos_left (lt_two_pow_droppedBits u) h0
    rw [Nat.pow_add] at hsum hcopy
    have hlt : 2 ^ 52 * 2 ^ droppedBits (n * u) < 2 ^ 53 * (n * lastBit u) := by
      calc _ ≤ n * u := hsum
        _ < n * (2 ^ 53 * 2 ^ droppedBits u) := hcopy
        _ = 2 ^ 53 * (n * lastBit u) := by rw [lastBit]; ring
    norm_num at hlt
    omega

/-- If it is off by half of them, twice the rounded sum is an odd multiple of them. -/
theorem exists_odd_of_tie (hu : Representable u)
    (htie : 2 * roundingError (n * u) = n * lastBit u) :
    ∃ k, Odd k ∧ 2 * rounded (n * u) 1 = n * lastBit u * k := by
  obtain ⟨q, hq⟩ := hu
  have hpos := mul_lastBit_pos (u := u) h0
  have hsum : n * u = n * lastBit u * q := by
    conv_lhs => rw [hq]
    rw [lastBit, Nat.mul_assoc]
  rw [roundingError] at htie
  rcases Nat.lt_or_ge (rounded (n * u) 1) (n * u) with hdown | hup
  · have hq0 : q ≠ 0 := by
      rintro rfl
      rw [Nat.mul_zero] at hsum
      omega
    obtain ⟨p, rfl⟩ := Nat.exists_eq_succ_of_ne_zero hq0
    refine ⟨2 * p + 1, ⟨p, rfl⟩, ?_⟩
    rw [Nat.mul_succ] at hsum
    rw [Nat.mul_add, Nat.mul_one, Nat.mul_left_comm]
    omega
  · refine ⟨2 * q + 1, ⟨q, rfl⟩, ?_⟩
    rw [Nat.mul_add, Nat.mul_one, Nat.mul_left_comm, ← hsum]
    omega

/-- It is never off by half of them, for then they would count no less than the last bit of twice
the sum. -/
theorem two_mul_roundingError_ne (hu : Representable u) :
    2 * roundingError (n * u) ≠ n * lastBit u := by
  intro htie
  obtain ⟨k, hk, hodd⟩ := exists_odd_of_tie h0 hu htie
  have herror := two_mul_roundingError_le (n * u)
  have hdvd : 2 * lastBit (n * u) ∣ n * lastBit u := by
    rw [lastBit, ← Nat.pow_succ']
    refine Nat.Coprime.dvd_of_dvd_mul_right (n := k) ?_ ?_
    · exact Nat.Coprime.pow_left _ (Nat.coprime_two_left.mpr hk)
    · rw [← hodd, Nat.pow_succ']
      exact Nat.mul_dvd_mul_left 2 (two_pow_dvd_rounded _)
  have hle := Nat.le_of_dvd (mul_lastBit_pos h0) hdvd
  have hpos : 0 < lastBit (n * u) := Nat.two_pow_pos _
  omega

omit h0 in
/-- A copy is a significand times its last bit. -/
theorem exists_mul_lastBit (hu : Representable u) :
    ∃ q, u = q * lastBit u ∧ q < 2 ^ 53 ∧ (2 ^ 52 ≤ q ∨ droppedBits u = 0) :=
  ⟨_, (Nat.div_mul_cancel hu).symm, div_droppedBits_lt u, le_div_droppedBits u⟩

omit h0 in
/-- Copies whose sum is rounded down have not the least of the significands that drop bits, for a
number of copies times a power of two is a double. -/
theorem two_pow_le_of_rounded_lt {p : ℕ} (hn : n ≤ 2 ^ 53) (hq : u = (p + 1) * lastBit u)
    (hle : 2 ^ 52 ≤ p + 1 ∨ droppedBits u = 0) (hdown : rounded (n * u) 1 < n * u) :
    2 ^ 52 ≤ p ∨ droppedBits u = 0 := by
  refine hle.imp_left fun hle => ?_
  rcases hle.lt_or_eq with hlt | heq
  · exact Nat.le_of_lt_succ hlt
  · have hpower : u = 2 ^ (52 + droppedBits u) := by
      rw [Nat.pow_add, heq]
      exact hq
    have hexact : Representable (n * u) := by
      rw [hpower]
      exact (representable_mul_two_pow_iff n _).mpr (representable_of_le hn)
    rw [rounded_of_representable hexact] at hdown
    exact absurd hdown (lt_irrefl _)

section

variable (hu : Representable u)
include hu

/-- A part of a sum that is rounded up, or exact. -/
theorem rounded_part_of_le (hup : n * u ≤ rounded (n * u) 1) :
    rounded (rounded (n * u) 1) n =
      u + if 2 * roundingError (n * u) < n * lastBit u then 0 else lastBit u := by
  obtain ⟨q, hq, hlt, hle⟩ := exists_mul_lastBit hu
  have hsum : n * u = q * (n * lastBit u) := by
    conv_lhs => rw [hq]
    rw [Nat.mul_left_comm]
  have hpart : rounded (n * u) 1 = q * (n * lastBit u) + roundingError (n * u) := by
    rw [← hsum, roundingError]
    omega
  have hround : rounded (q * (n * lastBit u) + roundingError (n * u)) n =
      (if 2 * roundingError (n * u) < n * lastBit u then q else q + 1) * lastBit u :=
    rounded_part h0 hlt hle (roundingError_mul_lt h0) (two_mul_roundingError_ne h0 hu)
  rw [hpart, hround]
  split_ifs
  · rw [Nat.add_zero, ← hq]
  · rw [Nat.succ_mul, ← hq]

/-- A part of a sum that is rounded down. -/
theorem rounded_part_of_rounded_lt (hn : n ≤ 2 ^ 53) (hdown : rounded (n * u) 1 < n * u) :
    rounded (rounded (n * u) 1) n +
      (if 2 * roundingError (n * u) < n * lastBit u then 0 else lastBit u) = u := by
  obtain ⟨q, hq, hlt, hle⟩ := exists_mul_lastBit hu
  have hsum : n * u = q * (n * lastBit u) := by
    conv_lhs => rw [hq]
    rw [Nat.mul_left_comm]
  obtain ⟨p, rfl⟩ : ∃ p, q = p + 1 := Nat.exists_eq_succ_of_ne_zero fun h => by
    rw [hsum, h, Nat.zero_mul] at hdown
    exact absurd hdown (Nat.not_lt_zero _)
  have hp := two_pow_le_of_rounded_lt hn hq hle hdown
  have herror := roundingError_mul_lt (u := u) h0
  have hne := two_mul_roundingError_ne h0 hu
  -- of the last bits of one unit less of the significand, all are left but the error
  obtain ⟨r, hr⟩ : ∃ r, r + roundingError (n * u) = n * lastBit u :=
    ⟨_, Nat.sub_add_cancel herror.le⟩
  have hpos : 0 < roundingError (n * u) := by
    rw [roundingError]
    omega
  have hpart : rounded (n * u) 1 = p * (n * lastBit u) + r := by
    rw [Nat.succ_mul] at hsum
    rw [roundingError] at hr
    omega
  have hround : rounded (p * (n * lastBit u) + r) n =
      (if 2 * r < n * lastBit u then p else p + 1) * lastBit u :=
    rounded_part h0 (Nat.lt_of_succ_lt hlt) hp (show r < n * lastBit u by omega)
      (show 2 * r ≠ n * lastBit u by omega)
  rw [hpart, hround]
  by_cases hmore : 2 * roundingError (n * u) < n * lastBit u
  · rw [if_pos hmore, if_neg (by omega), Nat.add_zero, ← hq]
  · rw [if_neg hmore, if_pos (by omega), ← Nat.succ_mul, ← hq]

/-- **Parts of a rounded sum of copies**: a part is a copy, if the sum is off by less than half of
the last bits of the copies, and otherwise it is off by one last bit. -/
theorem natAbs_sub_rounded_part (hn : n ≤ 2 ^ 53) :
    ((u : ℤ) - rounded (rounded (n * u) 1) n).natAbs =
      if 2 * roundingError (n * u) < n * lastBit u then 0 else lastBit u := by
  rcases Nat.lt_or_ge (rounded (n * u) 1) (n * u) with hdown | hup
  · have := rounded_part_of_rounded_lt h0 hu hn hdown
    omega
  · have := rounded_part_of_le h0 hu hup
    omega

end

end

/-! ### Differences of doubles of one sign -/

/-- The difference of finite doubles of one sign is finite, and rounded from that of their
magnitudes. -/
theorem sub_of_signed {negative : Bool} (hx : x.isFinite = true) (hy : y.isFinite = true)
    (hxu : units x = signed negative (magnitude x))
    (hyu : units y = signed negative (magnitude y)) :
    (x - y).isFinite = true ∧
      magnitude (x - y) = rounded ((magnitude x : ℤ) - magnitude y).natAbs 1 := by
  have habs : (units x - units y).natAbs = ((magnitude x : ℤ) - magnitude y).natAbs := by
    rw [hxu, hyu, signed, signed]
    split_ifs <;> omega
  have hxlt := lt_overflowBound (representable_magnitude x) (magnitude_lt hx)
  have hylt := lt_overflowBound (representable_magnitude y) (magnitude_lt hy)
  have hlt : ((magnitude x : ℤ) - magnitude y).natAbs < overflowBound := by omega
  have hrounded := (rounded_lt_unitsBound_iff Nat.one_pos).mpr (by rwa [Nat.mul_one])
  rw [isFinite_sub_iff hx hy, magnitude_sub hx hy, habs]
  exact ⟨hlt, Nat.min_eq_left hrounded.le⟩

/-! ### Parts of doubles -/

section

variable {n : ℕ} {count : Float} (hcount : Scalar.ofInt (n : ℤ) = .ok count)
include hcount

/-- The double of a number of parts. -/
theorem isFinite_count : count.isFinite = true := (ofInt_natCast_ranges hcount).1

theorem magnitude_count : magnitude count = rounded n 1 * unitsPerOne := by
  rw [ofInt_eq, Int.natAbs_natCast, ofRatio_natCast] at hcount
  split_ifs at hcount with hlt
  obtain rfl := Except.ok.inj hcount
  rw [magnitude_ofSignedUnitRatio _ _ Nat.one_pos hlt, unitsPerOne_eq, rounded_mul_two_pow]

variable (h0 : 0 < n)
include h0

theorem count_pos : 0 < count :=
  Double.lt_of_lt_of_le Double.zero_lt_one ((ofInt_natCast_ranges hcount).2.2 h0)

/-- A part of a finite double. -/
theorem div_count (hx : x.isFinite = true) :
    x / count = ofSignedUnitRatio (isNegative x) (magnitude x) (rounded n 1) := by
  have hpos := count_pos hcount h0
  have hrounded := rounded_pos h0
  rw [div_eq hx (isFinite_count hcount) (magnitude_pos_of_pos hpos), isNegative_of_pos hpos,
    Bool.bne_false, magnitude_count hcount]
  exact ofSignedUnitRatio_congr _ (Nat.mul_pos hrounded unitsPerOne_pos) hrounded
    (rounded_mul_right _ _ unitsPerOne_pos)

/-- A part of the infinity. -/
theorem infinity_div_count : infinity / count = infinity := by
  have hpos := count_pos hcount h0
  have hfinite := isFinite_count hcount
  exact eq_infinity_of_nonneg (Double.div_nonneg (by decide) hpos hfinite)
    (isFinite_infinity_div hpos hfinite)

end

end Double

namespace Total

open Double

/-! ### Totals of copies -/

/-- A number that is representable is carried as it is, if it is in the range of doubles. -/
theorem roundUnits?_of_representable {n : ℤ} (h : Representable n.natAbs) :
    roundUnits? n = if n.natAbs < unitsBound then some n else none := by
  have hround : roundUnits n = n := by
    rw [roundUnits, rounded_of_representable h, signed]
    split_ifs with hn
    · rw [decide_eq_true_eq] at hn
      omega
    · rw [decide_eq_true_eq] at hn
      omega
  rw [roundUnits?_eq_ite, rounded_of_representable h, hround]

/-- A term is added to a single partial, if the sum is a double. -/
theorem absorb_singleton {x p : ℤ} (hrep : Representable (x + p).natAbs) (h0 : x + p ≠ 0) :
    absorb x [p] = if (x + p).natAbs < unitsBound then some [x + p] else none := by
  rw [absorb, roundUnits?_of_representable hrep]
  split_ifs
  · simp [absorb, h0]
  · rfl

section

variable {n k w : ℕ} {x : Float} (hx : x.isFinite = true) (hw : units x = w) (hpos : 0 < w)
include hx hw hpos

/-- One more copy. -/
theorem step_copies (hrep : Representable ((k + 1) * w)) :
    step [((k * w : ℕ) : ℤ)] x =
      if (k + 1) * w < unitsBound then some [(((k + 1) * w : ℕ) : ℤ)] else none := by
  have hsum : (w : ℤ) + (k * w : ℕ) = ((k + 1) * w : ℕ) := by
    push_cast
    ring
  have hne : (w : ℤ) + (k * w : ℕ) ≠ 0 := by omega
  rw [step, if_pos hx, hw, absorb_singleton (by rwa [hsum, Int.natAbs_natCast]) hne, hsum,
    Int.natAbs_natCast]

/-- Copies are absorbed to their sum, as long as all the sums are doubles. -/
theorem foldlM_step_copies (hrep : ∀ m ≤ k + n, Representable (m * w)) (hk : k * w < unitsBound) :
    (List.replicate n x).foldlM step [((k * w : ℕ) : ℤ)] =
      if (k + n) * w < unitsBound then some [(((k + n) * w : ℕ) : ℤ)] else none := by
  induction n generalizing k with
  | zero =>
      rw [Nat.add_zero, if_pos hk]
      rfl
  | succ n ih =>
      have hcomm : k + 1 + n = k + (n + 1) := by omega
      rw [List.replicate_succ, List.foldlM_cons, step_copies hx hw hpos (hrep _ (by omega))]
      by_cases hnext : (k + 1) * w < unitsBound
      · rw [if_pos hnext, ← hcomm]
        exact ih (fun m hm => hrep m (by omega)) hnext
      · have hle : (k + 1) * w ≤ (k + (n + 1)) * w := Nat.mul_le_mul_right w (by omega)
        rw [if_neg hnext, if_neg (by omega)]
        rfl

/-- **The total of copies** whose multiples are all doubles is exact, up to the largest double. -/
theorem ofList_replicate (h0 : 0 < n) (hrep : ∀ m ≤ n, Representable (m * w)) :
    ofList (List.replicate n x) =
      if n * w < unitsBound then .ok (ofUnits (n * w : ℕ)) else .error .partialTooLarge := by
  obtain ⟨m, rfl⟩ := Nat.exists_eq_succ_of_ne_zero h0.ne'
  have hfirst : step [] x = some [((1 * w : ℕ) : ℤ)] := by
    rw [step, if_pos hx, hw, absorb, if_neg (by omega), Nat.one_mul]
  have hone : 1 * w < unitsBound := by
    have hlt := magnitude_lt hx
    have habs := natAbs_units x
    omega
  have hfold : (List.replicate (m + 1) x).foldlM step [] =
      if (m + 1) * w < unitsBound then some [(((m + 1) * w : ℕ) : ℤ)] else none := by
    rw [List.replicate_succ, List.foldlM_cons, hfirst, Nat.add_comm m 1]
    exact foldlM_step_copies hx hw hpos (fun k hk => hrep k (by omega)) hone
  have hfinite : ∀ y ∈ List.replicate (m + 1) x, y.isFinite = true := fun y hy => by
    rwa [List.eq_of_mem_replicate hy]
  split_ifs at hfold ⊢ with hlt
  · rw [ofList_of_finite hfinite hfold, List.map_replicate, List.sum_replicate, hw, nsmul_eq_mul,
      Nat.cast_mul]
  · rw [ofList, hfold]

end

/-- **The total of infinities** is the infinity. -/
theorem ofList_replicate_infinity {n : ℕ} (h0 : 0 < n) :
    ofList (List.replicate n infinity) = .ok infinity := by
  have hstep : step [] infinity = some [] := by decide
  have hfold : (List.replicate n infinity).foldlM step [] = some [] := by
    clear h0
    induction n with
    | zero => rfl
    | succ n ih => rw [List.replicate_succ, List.foldlM_cons, hstep]; exact ih
  have hany : ∀ f : Float → Bool, (List.replicate n infinity).any f = f infinity := fun f => by
    rw [List.any_replicate, if_neg h0.ne']
  rw [ofList, hfold]
  simp only [hany]
  rfl

end Total

end Corridor
