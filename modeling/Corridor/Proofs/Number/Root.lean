import Corridor.Proofs.Number.Sign

/-!
# Squares and Square Roots of Doubles

A square is rounded once, to zero if it is half a unit or less. The root of a positive double is
taken of a whole number: the significand, shifted so far to the left that its whole root has as many
bits as a double keeps. Of what is left after that whole root no more is kept than whether it is
nothing, or less or more than one half, and three fractions with the same denominator tell a
rounding as much. So a root is a quotient rounded once as well, and the root of a square that was
not rounded is what was squared.

## Main results

* `Double.mul_self_eq_zero`, `Double.mul_self_pos`: which squares are zero.
* `exists_sqrt_eq`: the root as a rounded quotient.
* `sqrt_eq_of_sq`: the root of an exact square.
* `Double.sqrt_pos`: the root of a positive double.
* `mul_self_of_two_pow`, `sqrt_of_two_pow`: powers of two and their squares.
-/

namespace Corridor.Double

open Float.Model Float.Model.UnpackedFloat

variable {x : Float}

/-! ### Squares -/

section

variable (hx : x.isFinite = true)
include hx

theorem mul_self_eq : x * x = ofSignedUnitRatio false (magnitude x ^ 2) unitsPerOne := by
  rw [mul_eq hx hx, bne_self_eq_false, sq]

/-- **Squares of half a unit or less** are rounded to zero. -/
protected theorem mul_self_eq_zero (h : 2 * magnitude x ^ 2 ≤ unitsPerOne) : x * x = 0 := by
  have hzero := (rounded_eq_zero_iff unitsPerOne_pos).mpr h
  rw [mul_self_eq hx, ← ofSignedUnitRatio_zero Nat.one_pos]
  exact ofSignedUnitRatio_congr false unitsPerOne_pos Nat.one_pos
    (hzero.trans (rounded_zero 1).symm)

/-- Other squares are positive. -/
protected theorem mul_self_pos (h : unitsPerOne < 2 * magnitude x ^ 2) : 0 < x * x := by
  rw [mul_self_eq hx]
  refine ofSignedUnitRatio_pos unitsPerOne_pos (Nat.pos_of_ne_zero fun h0 => ?_)
  exact absurd ((rounded_eq_zero_iff unitsPerOne_pos).mp h0) h.not_ge

end

/-! ### Whole roots -/

/-- What is left of a number after its whole root, in quarters: nothing, one for less than one half,
or three for more. -/
def rootRest (m : ℕ) : ℕ :=
  if m - m.sqrt * m.sqrt = 0 then 0 else if m - m.sqrt * m.sqrt ≤ m.sqrt then 1 else 3

theorem rootRest_lt (m : ℕ) : rootRest m < 4 := by
  rw [rootRest]
  split_ifs <;> decide

theorem accuracyOfFraction_rootRest (m : ℕ) :
    accuracyOfFraction (rootRest m) 4 = if m - m.sqrt * m.sqrt = 0 then .exact
      else .inexact (if m - m.sqrt * m.sqrt ≤ m.sqrt then .lt else .gt) := by
  rw [rootRest]
  split_ifs <;> rfl

/-- The root of a positive magnitude is that of a whole number, in units that the roots of the
units of both scale. -/
theorem exists_sqrt_unpacked {u : ℕ} (hu : Representable u) (hpos : 0 < u) :
    ∃ m i j : ℕ, m * 2 ^ (2 * i) = u * unitsPerOne * 2 ^ (2 * j) ∧
      UnpackedFloat.sqrt Format.binary64 (unpacked false u) =
        unpacked false (rounded ((4 * m.sqrt + rootRest m) * 2 ^ i) (4 * 2 ^ j)) := by
  obtain ⟨q, hq, hqu, -, hunp⟩ := unpacked_of_pos false hu hpos
  have hmin : Format.binary64.minExponent = -1074 := by decide
  have hbits : Format.binary64.mantissaBits = 53 := rfl
  set D := droppedBits u
  set t : ℤ := min (((D : ℤ) - 1074).ediv 2)
    (Format.binary64.targetExponent ((totalExponent q ((D : ℤ) - 1074) + 1).ediv 2)) with ht
  have ht' : t = min (((D : ℤ) - 1074) / 2)
      (max (((q.log2 : ℤ) + 1 + (D - 1074) + 1) / 2 - 53) (-1074)) := by
    rw [ht, Format.targetExponent, totalExponent, hmin, hbits]
    rfl
  set c := ((D : ℤ) - 1074 - 2 * t).toNat with hc
  set i := (t + 1074).toNat with hi
  set j := (-(t + 1074)).toNat with hj
  set m := q * 2 ^ c with hm
  have hquot : (4 * m.sqrt + rootRest m) / 4 = m.sqrt := by
    have := rootRest_lt m
    omega
  have hmod : (4 * m.sqrt + rootRest m) % 4 = rootRest m := by
    have := rootRest_lt m
    omega
  -- above the smallest exponent, the shifted significand has 105 bits, and its root 53
  have hlow : 2 ^ 52 ≤ (4 * m.sqrt + rootRest m) / 4 ∨ i ≤ j := by
    rcases Nat.eq_zero_or_pos i with h0 | h0
    · exact .inr (by omega)
    · have hbig : 2 ^ 104 ≤ m := by
        calc 2 ^ 104 ≤ 2 ^ (q.log2 + c) := Nat.pow_le_pow_right (by decide) (by omega)
          _ = 2 ^ q.log2 * 2 ^ c := Nat.pow_add ..
          _ ≤ m := Nat.mul_le_mul_right _ (Nat.log2_self_le hq.ne')
      rw [hquot]
      exact .inl (Nat.le_sqrt.mpr (by rw [← Nat.pow_add]; exact hbig))
  refine ⟨m, i, j, ?_, ?_⟩
  · have hunit : unitExponent = 1074 := rfl
    have hexp : c + 2 * i = D + (unitExponent + 2 * j) := by omega
    rw [unitsPerOne_eq, hm]
    conv_rhs => rw [hqu]
    rw [Nat.mul_assoc, Nat.mul_assoc, Nat.mul_assoc, ← Nat.pow_add, ← Nat.pow_add, ← Nat.pow_add,
      hexp]
  · have hround := roundWithAccuracy_eq false (show 0 < 4 by decide) hlow
    have hexp : (i : ℤ) - j - 1074 = t := by omega
    rw [hquot, hmod, hexp, accuracyOfFraction_rootRest] at hround
    rw [← hround, hunp]
    simp only [UnpackedFloat.sqrt, sqrtCore, Nat.shiftLeft_eq]
    rfl

/-! ### Roots of doubles -/

section

variable (hx : x.isFinite = true) (hpos : 0 < x)
include hx hpos

/-- **Roots are rounded once**: the root of a positive double is a double nearest to a quotient
that is as near to the exact root as a rounding can tell. -/
theorem exists_sqrt_eq :
    ∃ m i j : ℕ, m * (2 ^ i) ^ 2 = magnitude x * unitsPerOne * (2 ^ j) ^ 2 ∧
      Float.sqrt x =
        ofSignedUnitRatio false ((4 * m.sqrt + rootRest m) * 2 ^ i) (4 * 2 ^ j) := by
  obtain ⟨m, i, j, hm, hroot⟩ :=
    exists_sqrt_unpacked (representable_magnitude x) (magnitude_pos_of_pos hpos)
  rw [Nat.pow_mul', Nat.pow_mul'] at hm
  refine ⟨m, i, j, hm, ?_⟩
  rw [ofSignedUnitRatio_eq _ _ (Nat.mul_pos (by decide) (Nat.two_pow_pos j)), ← hroot,
    ← isNegative_of_pos hpos, ← unpack_eq_unpacked (isFinite_iff.mp hx)]
  rfl

/-- **The root of an exact square** is its root, rounded once. -/
theorem sqrt_eq_of_sq {v : ℕ} (hv : magnitude x * unitsPerOne = v ^ 2) :
    Float.sqrt x = ofSignedUnitRatio false v 1 := by
  obtain ⟨m, i, j, hm, hroot⟩ := exists_sqrt_eq hx hpos
  rw [hv, ← Nat.mul_pow] at hm
  -- a whole number whose square is a multiple of a square is a multiple of its root
  obtain ⟨w, hw⟩ : 2 ^ i ∣ v * 2 ^ j :=
    (Nat.pow_dvd_pow_iff two_ne_zero).mp (hm ▸ Nat.dvd_mul_left _ _)
  have hsquare : m = w * w := by
    refine Nat.eq_of_mul_eq_mul_right (pow_pos (Nat.two_pow_pos i) 2) ?_
    rw [hm, hw]
    ring
  have hsqrt : m.sqrt = w := by rw [hsquare, Nat.sqrt_eq]
  have hrest : rootRest m = 0 := by rw [rootRest, hsqrt, hsquare, Nat.sub_self, if_pos rfl]
  have hden : 0 < 4 * 2 ^ j := Nat.mul_pos (by decide) (Nat.two_pow_pos j)
  have hratio : 4 * w * 2 ^ i * 1 = v * (4 * 2 ^ j) := by
    rw [Nat.mul_one, Nat.mul_left_comm v, hw]
    ring
  rw [hroot, hsqrt, hrest, Nat.add_zero, ofSignedUnitRatio_eq _ _ hden,
    ofSignedUnitRatio_eq _ _ Nat.one_pos, rounded_congr hden Nat.one_pos hratio]

/-- The root of a finite positive double is positive, for that of a unit is far above a unit. -/
theorem sqrt_pos_of_isFinite : 0 < Float.sqrt x := by
  obtain ⟨m, i, j, hm, hroot⟩ := exists_sqrt_eq hx hpos
  have hden : 0 < 4 * 2 ^ j := Nat.mul_pos (by decide) (Nat.two_pow_pos j)
  have hunits : 4 ≤ magnitude x * unitsPerOne := by
    have hone : 4 ≤ unitsPerOne := by decide +kernel
    exact hone.trans (Nat.le_mul_of_pos_left _ (magnitude_pos_of_pos hpos))
  have hroots : 2 ^ j ≤ m.sqrt * 2 ^ i := by
    have hm0 : 0 < m := by
      refine Nat.pos_of_mul_pos_right (b := (2 ^ i) ^ 2) ?_
      rw [hm]
      exact Nat.mul_pos (hunits.trans_lt' (by decide)) (pow_pos (Nat.two_pow_pos j) 2)
    have hr := Nat.sqrt_pos.mpr hm0
    have hlt : m < (2 * m.sqrt) ^ 2 :=
      (Nat.lt_succ_sqrt' m).trans_le (Nat.pow_le_pow_left (by omega) 2)
    have hsquare : (2 * 2 ^ j) ^ 2 < (2 * m.sqrt * 2 ^ i) ^ 2 := by
      calc (2 * 2 ^ j) ^ 2 = 4 * (2 ^ j) ^ 2 := by ring
        _ ≤ magnitude x * unitsPerOne * (2 ^ j) ^ 2 := Nat.mul_le_mul_right _ hunits
        _ = m * (2 ^ i) ^ 2 := hm.symm
        _ < (2 * m.sqrt) ^ 2 * (2 ^ i) ^ 2 := Nat.mul_lt_mul_of_pos_right hlt (by positivity)
        _ = (2 * m.sqrt * 2 ^ i) ^ 2 := (Nat.mul_pow _ _ 2).symm
    have := lt_of_pow_lt_pow_left₀ 2 (Nat.zero_le _) hsquare
    rw [Nat.mul_assoc] at this
    omega
  have hle : 2 ^ 0 * (4 * 2 ^ j) ≤ (4 * m.sqrt + rootRest m) * 2 ^ i := by
    rw [Nat.pow_zero, Nat.one_mul, Nat.add_mul, Nat.mul_assoc]
    omega
  rw [hroot]
  exact ofSignedUnitRatio_pos hden ((Nat.two_pow_pos 0).trans_le (two_pow_le_rounded hden hle))

omit hx in
/-- **The root of a positive double** is positive. -/
protected theorem sqrt_pos : 0 < Float.sqrt x := by
  cases hfinite : x.isFinite with
  | true => exact sqrt_pos_of_isFinite hfinite hpos
  | false =>
      rw [eq_infinity_of_nonneg (Double.le_of_lt hpos) hfinite]
      decide

end

/-! ### Powers of two -/

theorem ofUnits_natCast (m : ℕ) : ofUnits m = ofSignedUnitRatio false m 1 := by
  rw [ofUnits, ofUnitRatio, Int.natAbs_natCast, decide_eq_false (by omega)]

/-- A power of two in the range of doubles. -/
theorem ofUnits_two_pow {k : ℕ} (hk : k < 1024 + unitExponent) :
    (ofUnits (2 ^ k : ℕ)).isFinite = true ∧ units (ofUnits (2 ^ k : ℕ)) = (2 ^ k : ℕ) := by
  have hexact := rounded_of_representable (representable_two_pow k)
  have hlt : rounded (2 ^ k) 1 < unitsBound := by
    rw [hexact]
    exact two_pow_lt_unitsBound hk
  rw [ofUnits_natCast, units_ofSignedUnitRatio _ _ Nat.one_pos, Nat.min_eq_left hlt.le, hexact]
  exact ⟨(isFinite_ofSignedUnitRatio _ _ Nat.one_pos).mpr hlt, rfl⟩

section

variable {d k : ℕ} (hx : x.isFinite = true) (hd : magnitude x = 2 ^ d)
  (hk : k + unitExponent = 2 * d)
include hd hk

omit hx in
/-- The square of a power of two in units. -/
theorem magnitude_sq_of_two_pow : magnitude x ^ 2 = 2 ^ k * unitsPerOne := by
  rw [hd, unitsPerOne_eq, ← Nat.pow_add, hk, ← Nat.pow_mul, Nat.mul_comm]

omit hx in
/-- Its root is the power of two again. -/
theorem sqrt_of_two_pow (hsmall : k < 1024 + unitExponent) :
    Float.sqrt (ofUnits (2 ^ k : ℕ)) = ofUnits (2 ^ d : ℕ) := by
  obtain ⟨hfinite, hunits⟩ := ofUnits_two_pow hsmall
  have hpow := Nat.two_pow_pos k
  have hpos : 0 < ofUnits (2 ^ k : ℕ) :=
    pos_iff.mpr ⟨isNaN_of_isFinite hfinite, by rw [hunits]; exact_mod_cast hpow⟩
  have hmagnitude : magnitude (ofUnits (2 ^ k : ℕ)) * unitsPerOne = (2 ^ d) ^ 2 := by
    rw [← natAbs_units, hunits, Int.natAbs_natCast, ← hd, magnitude_sq_of_two_pow hd hk]
  rw [sqrt_eq_of_sq hfinite hpos hmagnitude, ofUnits_natCast]

include hx

theorem mul_self_of_two_pow : x * x = ofUnits (2 ^ k : ℕ) := by
  rw [mul_self_eq hx, magnitude_sq_of_two_pow hd hk, ofUnits_natCast]
  refine ofSignedUnitRatio_congr false unitsPerOne_pos Nat.one_pos ?_
  exact rounded_congr unitsPerOne_pos Nat.one_pos (Nat.mul_one _)

/-- Beyond the largest double, it is the infinity. -/
theorem mul_self_eq_infinity (hlarge : 1024 + unitExponent ≤ k) : x * x = infinity := by
  refine eq_infinity_of_nonneg (Double.mul_self_nonneg (isNaN_of_isFinite hx)) ?_
  have hpow : unitsBound ≤ 2 ^ k := Nat.pow_le_pow_right Nat.two_pos hlarge
  rw [mul_self_of_two_pow hx hd hk, ofUnits_natCast, ← Bool.not_eq_true,
    isFinite_ofSignedUnitRatio _ _ Nat.one_pos,
    rounded_of_representable (representable_two_pow k)]
  exact hpow.not_gt

end

end Corridor.Double
