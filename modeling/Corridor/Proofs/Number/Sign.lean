import Corridor.Proofs.Number.Bounds
import Corridor.Proofs.Number.Order
import Mathlib.Tactic.Linarith

/-!
# Doubles That Are Not Negative

A double that is at least zero is finite or the positive infinity, and the operations of the
scores keep it so: products of finite ones, quotients by positive ones, roots. What is not a
number comes of such doubles in one way only, as the product of the infinity and a zero.

## Main results

* `eq_infinity_of_nonneg`: a double that is at least zero is finite or the infinity.
* `add_nonneg`, `mul_nonneg`, `div_nonneg`, `sqrt_nonneg`: the operations that keep it so.
* `isNaN_infinity_mul`: the operation that does not.
* `isFinite_sub_iff`, `magnitude_sub`: differences of finite numbers.
* `isFinite_largest_mul_iff`: what the largest double can be multiplied by.
* `rounded_lt_unitsBound_iff`: the quotients that are rounded to a finite double.
-/

namespace Corridor.Double

open Float.Model Float.Model.UnpackedFloat

variable {x y z : Float}

/-! ### Numbers -/

theorem isNaN_eq_false_iff : x.isNaN = false ↔ absBits x ≤ infinityBits := by
  rw [← Bool.not_eq_true, isNaN_iff, not_lt]

theorem isNaN_of_isFinite (h : x.isFinite = true) : x.isNaN = false :=
  isNaN_eq_false_iff.mpr (isFinite_iff.mp h).le

theorem isFinite_zero : (0 : Float).isFinite = true := by decide

theorem isFinite_one : (1 : Float).isFinite = true := by decide

theorem units_one : units 1 = unitsPerOne := by decide +kernel

protected theorem lt_of_lt_of_le (hxy : x < y) (hyz : y ≤ z) : x < z := by
  obtain ⟨hx, -, hxy⟩ := lt_iff.mp hxy
  obtain ⟨-, hz, hyz⟩ := le_iff.mp hyz
  exact lt_iff.mpr ⟨hx, hz, hxy.trans_le hyz⟩

protected theorem lt_of_le_of_lt (hxy : x ≤ y) (hyz : y < z) : x < z := by
  obtain ⟨hx, -, hxy⟩ := le_iff.mp hxy
  obtain ⟨-, hz, hyz⟩ := lt_iff.mp hyz
  exact lt_iff.mpr ⟨hx, hz, hxy.trans_lt hyz⟩

protected theorem le_of_lt (h : x < y) : x ≤ y := by
  obtain ⟨hx, hy, hxy⟩ := lt_iff.mp h
  exact le_iff.mpr ⟨hx, hy, hxy.le⟩

theorem not_lt_of_le (h : x ≤ y) : ¬y < x := fun hlt =>
  absurd (lt_iff.mp hlt).2.2 (not_lt.mpr (le_iff.mp h).2.2)

theorem lt_of_not_le (hx : x.isNaN = false) (hy : y.isNaN = false) (h : ¬x ≤ y) : y < x :=
  lt_iff.mpr ⟨hy, hx, not_le.mp fun hle => h (le_iff.mpr ⟨hx, hy, hle⟩)⟩

/-- The numbers that are at least zero. -/
theorem nonneg_iff : 0 ≤ x ↔ x.isNaN = false ∧ 0 ≤ units x := by
  rw [le_iff, units_zero]
  exact ⟨And.right, fun h => ⟨isNaN_of_isFinite isFinite_zero, h⟩⟩

theorem pos_iff : 0 < x ↔ x.isNaN = false ∧ 0 < units x := by
  rw [lt_iff, units_zero]
  exact ⟨And.right, fun h => ⟨isNaN_of_isFinite isFinite_zero, h⟩⟩

theorem isNaN_of_nonneg (h : 0 ≤ x) : x.isNaN = false := (nonneg_iff.mp h).1

theorem zero_nonneg : (0 : Float) ≤ 0 :=
  nonneg_iff.mpr ⟨isNaN_of_isFinite isFinite_zero, units_zero.ge⟩

protected theorem zero_lt_one : (0 : Float) < 1 := by decide

theorem one_nonneg : (0 : Float) ≤ 1 := Double.le_of_lt Double.zero_lt_one

theorem isNaN_one : (1 : Float).isNaN = false := isNaN_of_isFinite isFinite_one

protected theorem one_le_one : (1 : Float) ≤ 1 := le_iff.mpr ⟨isNaN_one, isNaN_one, le_rfl⟩

/-- A number without a sign bit is at least zero. -/
theorem nonneg_of_absBits (hsign : isNegative x = false) (hbits : absBits x ≤ infinityBits) :
    0 ≤ x := by
  refine nonneg_iff.mpr ⟨isNaN_eq_false_iff.mpr hbits, ?_⟩
  rw [units_eq_signed, hsign]
  exact Int.natCast_nonneg _

theorem units_of_nonneg (h : 0 ≤ units x) : units x = magnitude x := by
  have := natAbs_units x
  omega

theorem magnitude_pos_of_pos (h : 0 < x) : 0 < magnitude x := by
  have hunits := (pos_iff.mp h).2
  have := natAbs_units x
  omega

theorem isNegative_of_pos (h : 0 < x) : isNegative x = false := by
  have hunits := (pos_iff.mp h).2
  cases hsign : isNegative x with
  | false => rfl
  | true =>
      rw [units_eq_signed, hsign] at hunits
      simp only [signed, if_true] at hunits
      omega

/-- **A number that is at least zero is finite or the infinity.** -/
theorem eq_infinity_of_nonneg (h : 0 ≤ x) (hfinite : x.isFinite = false) : x = infinity := by
  obtain ⟨hnan, hunits⟩ := nonneg_iff.mp h
  have hbits : absBits x = infinityBits := by
    rcases absBits_cases hnan with hlt | heq
    · rw [isFinite_iff.mpr hlt] at hfinite
      cases hfinite
    · exact heq
  have hpos : 0 < x := by
    refine pos_iff.mpr ⟨hnan, ?_⟩
    rw [units_of_nonneg hunits, magnitude_of_infinity hbits]
    exact_mod_cast unitsBound_pos
  have hsign : x.toBits.toNat < 2 ^ 63 := by
    simpa [isNegative] using isNegative_of_pos hpos
  refine eq_of_toBits ?_
  rw [← Nat.mod_eq_of_lt hsign]
  exact hbits

/-- A number that is at most a finite one is finite, if it is at least zero. -/
theorem isFinite_of_le (hx : 0 ≤ x) (hxy : x ≤ y) (hy : y.isFinite = true) : x.isFinite = true := by
  cases hfinite : x.isFinite with
  | true => rfl
  | false =>
      have hbits : absBits infinity = infinityBits := by decide
      have hle := (le_iff.mp hxy).2.2
      rw [eq_infinity_of_nonneg hx hfinite, units_of_nonneg (by decide),
        magnitude_of_infinity hbits] at hle
      have hlt := magnitude_lt hy
      have := natAbs_units y
      omega

/-! ### Rounded quotients -/

/-- The quotient of units from which on a quotient is rounded to the infinity: what is left of the
bound after half of what the last bit of the largest double counts. -/
def overflowBound : ℕ := 2 ^ (1024 + unitExponent) - 2 ^ (970 + unitExponent)

/-- The same bound in ones. -/
def quotientBound : ℕ := 2 ^ 1024 - 2 ^ 970

theorem two_pow_le_sub {j k : ℕ} (h : j ≤ k) : 2 ^ k ≤ 2 ^ (k + 1) - 2 ^ j := by
  have hle : 2 ^ j ≤ 2 ^ k := Nat.pow_le_pow_right Nat.two_pos h
  rw [Nat.pow_succ]
  omega

theorem two_pow_le_quotientBound {k : ℕ} (hk : k ≤ 1023) : 2 ^ k ≤ quotientBound := by
  have hexp : 1023 + 1 = 1024 := rfl
  have hbound := two_pow_le_sub (j := 970) (k := 1023) (by decide)
  rw [hexp] at hbound
  unfold quotientBound
  exact (pow_le_pow_right₀ one_le_two hk).trans hbound

theorem two_pow_lt_quotientBound {k : ℕ} (hk : k < 1023) : 2 ^ k < quotientBound :=
  (Nat.pow_lt_pow_right one_lt_two (Nat.lt_succ_self k)).trans_le (two_pow_le_quotientBound hk)

theorem one_lt_quotientBound : 1 < quotientBound :=
  (Nat.one_lt_two_pow one_ne_zero).trans_le (two_pow_le_quotientBound (k := 1) (by decide))

theorem overflowBound_eq : overflowBound = quotientBound * unitsPerOne := by
  rw [overflowBound, quotientBound, unitsPerOne_eq, Nat.sub_mul, ← Nat.pow_add, ← Nat.pow_add]

theorem two_mul_overflowBound : 2 * overflowBound = (2 ^ 54 - 1) * 2 ^ (971 + unitExponent) := by
  have hhigh : 1024 + unitExponent + 1 = 54 + (971 + unitExponent) := by omega
  have hlow : 970 + unitExponent + 1 = 971 + unitExponent := by omega
  rw [overflowBound, Nat.mul_sub, Nat.sub_mul, Nat.one_mul, ← Nat.pow_add, ← hhigh, ← hlow,
    Nat.pow_succ', Nat.pow_succ']

theorem unitsBound_eq_mul : unitsBound = 2 ^ 53 * 2 ^ (971 + unitExponent) := by
  have hexp : 53 + (971 + unitExponent) = 1024 + unitExponent := by omega
  rw [unitsBound, ← Nat.pow_add, hexp]

section

variable {s bound limit : ℕ} (hbound : bound = 2 ^ 53 * 2 ^ s)
  (hlimit : 2 * limit = (2 ^ 54 - 1) * 2 ^ s)
include hbound hlimit

omit hbound in
theorem two_pow_mul_le_limit : 2 ^ 52 * 2 ^ s ≤ limit := by
  have := Nat.two_pow_pos s
  norm_num at hlimit ⊢
  linarith

omit hbound in
theorem limit_lt : limit < 2 ^ 53 * 2 ^ s := by
  have := Nat.two_pow_pos s
  norm_num at hlimit ⊢
  linarith

/-- Half way between a significand of 53 ones and the bound after it, the bound is nearest. -/
theorem rounded_limit : rounded limit 1 = bound := by
  have hbits : droppedBits limit = s := by
    refine droppedBits_eq (.inl ?_) ?_
    · rw [Nat.pow_add]
      exact two_pow_mul_le_limit hlimit
    · rw [Nat.pow_add]
      exact limit_lt hlimit
  have hhalf : roundQuotient limit (2 ^ s) = 2 ^ 53 := by
    rw [← roundQuotient_mul_right limit (2 ^ s) Nat.two_pos, Nat.mul_comm limit, hlimit,
      Nat.mul_comm (2 ^ s) 2, roundQuotient_mul_right _ _ (Nat.two_pow_pos s), roundQuotient]
    norm_num
  rw [rounded, Nat.div_one, hbits, Nat.one_mul, hhalf, hbound]

/-- Below that, a quotient is rounded to less than the bound. -/
theorem rounded_lt_of_lt_limit {num den : ℕ} (hden : 0 < den) (h : num < limit * den) :
    rounded num den < bound := by
  have hpow := Nat.two_pow_pos s
  have hbits : droppedBits (num / den) ≤ s := by
    refine droppedBits_le ?_
    rw [Nat.pow_add]
    exact ((Nat.div_lt_iff_lt_mul hden).mpr h).trans (limit_lt hlimit)
  rw [rounded, hbound]
  rcases hbits.lt_or_eq with hlt | heq
  · -- with fewer bits dropped, the significand leaves a factor of two to the bound
    calc roundQuotient num (den * 2 ^ droppedBits (num / den)) * 2 ^ droppedBits (num / den)
        ≤ 2 ^ 53 * 2 ^ droppedBits (num / den) :=
          Nat.mul_le_mul_right _ (roundQuotient_significand num hden).1
      _ < 2 ^ 53 * 2 ^ s :=
          Nat.mul_lt_mul_of_pos_left (Nat.pow_lt_pow_right Nat.one_lt_two hlt) (Nat.two_pow_pos 53)
  · rw [heq]
    refine Nat.mul_lt_mul_of_pos_right ?_ hpow
    obtain ⟨hnear, -⟩ := roundQuotient_near num (Nat.mul_pos hden hpow)
    have hnum : 2 * num < (2 ^ 54 - 1) * (den * 2 ^ s) := by
      calc 2 * num < 2 * (limit * den) := Nat.mul_lt_mul_of_pos_left h Nat.two_pos
        _ = (2 ^ 54 - 1) * (den * 2 ^ s) := by
            rw [← Nat.mul_assoc, hlimit, Nat.mul_comm den, Nat.mul_assoc]
    by_contra hq
    have hmul := Nat.mul_le_mul_right (den * 2 ^ s) (Nat.le_of_not_lt hq)
    norm_num at hnum hmul
    linarith

end

/-- **A quotient is rounded to a finite magnitude** if it is below the overflow bound. -/
theorem rounded_lt_unitsBound_iff {num den : ℕ} (hden : 0 < den) :
    rounded num den < unitsBound ↔ num < overflowBound * den := by
  constructor
  · intro h
    by_contra hle
    have hlimit := rounded_mul_right overflowBound 1 hden
    rw [rounded_limit unitsBound_eq_mul two_mul_overflowBound, Nat.one_mul] at hlimit
    have hmono := rounded_mono hden (Nat.le_of_not_lt hle)
    omega
  · exact rounded_lt_of_lt_limit unitsBound_eq_mul two_mul_overflowBound hden

/-- What is representable in the range of doubles is below the overflow bound. -/
theorem lt_overflowBound {u : ℕ} (hu : Representable u) (h : u < unitsBound) :
    u < overflowBound := by
  rw [← rounded_of_representable hu, rounded_lt_unitsBound_iff Nat.one_pos, Nat.mul_one] at h
  exact h

/-- The magnitude of a nearest double, which is the bound for an infinity. -/
theorem magnitude_ofSignedUnitRatio_eq (negative : Bool) (num : ℕ) {den : ℕ} (hden : 0 < den) :
    magnitude (ofSignedUnitRatio negative num den) = min (rounded num den) unitsBound := by
  by_cases h : rounded num den < unitsBound
  · rw [magnitude_ofSignedUnitRatio negative num hden h, Nat.min_eq_left h.le]
  · have hencode : infinityBits ≤ encode (rounded num den) := by
      rw [← not_lt, encode_lt_infinityBits (representable_rounded num hden)]
      exact h
    have hbits := absBits_ofSignedUnitRatio negative num hden
    rw [Nat.min_eq_right hencode] at hbits
    rw [magnitude_of_infinity hbits, Nat.min_eq_right (Nat.le_of_not_lt h)]

/-- A nearest double is a number. -/
theorem isNaN_ofSignedUnitRatio (negative : Bool) (num : ℕ) {den : ℕ} (hden : 0 < den) :
    (ofSignedUnitRatio negative num den).isNaN = false := by
  rw [isNaN_eq_false_iff, absBits_ofSignedUnitRatio negative num hden]
  exact Nat.min_le_right _ _

/-- The units of a nearest double, in the range of doubles. -/
theorem units_ofSignedUnitRatio (negative : Bool) (num : ℕ) {den : ℕ} (hden : 0 < den) :
    units (ofSignedUnitRatio negative num den) =
      signed negative (min (rounded num den) unitsBound) := by
  rw [units_eq_signed, isNegative_ofSignedUnitRatio negative num hden,
    magnitude_ofSignedUnitRatio_eq negative num hden]

/-- A nearest double is at least zero if it has no sign or nothing to it. -/
theorem ofSignedUnitRatio_nonneg {negative : Bool} {num den : ℕ} (hden : 0 < den)
    (h : negative = false ∨ num = 0) : 0 ≤ ofSignedUnitRatio negative num den := by
  refine nonneg_iff.mpr ⟨isNaN_ofSignedUnitRatio negative num hden, ?_⟩
  rw [units_ofSignedUnitRatio negative num hden]
  rcases h with rfl | rfl
  · exact Int.natCast_nonneg _
  · rw [rounded_zero, Nat.zero_min, signed]
    split_ifs <;> simp

/-- It is positive if it has no sign and is not rounded to zero. -/
theorem ofSignedUnitRatio_pos {num den : ℕ} (hden : 0 < den) (h : 0 < rounded num den) :
    0 < ofSignedUnitRatio false num den := by
  refine pos_iff.mpr ⟨isNaN_ofSignedUnitRatio false num hden, ?_⟩
  rw [units_ofSignedUnitRatio false num hden]
  exact Int.natCast_pos.mpr (Nat.lt_min.mpr ⟨h, unitsBound_pos⟩)

theorem isNaN_ofUnits (n : ℤ) : (ofUnits n).isNaN = false :=
  isNaN_ofSignedUnitRatio _ _ Nat.one_pos

/-- Rounding does not pass a double from above. -/
theorem le_ofUnits {n : ℤ} (hx : x.isFinite = true) (h : units x ≤ n) : x ≤ ofUnits n := by
  refine le_iff.mpr ⟨isNaN_of_isFinite hx, isNaN_ofUnits n, ?_⟩
  have hrep := rounded_of_representable (representable_magnitude x)
  have hlt := magnitude_lt hx
  have habs := natAbs_units x
  rw [ofUnits, ofUnitRatio, units_ofSignedUnitRatio _ _ Nat.one_pos, signed]
  by_cases hn : n < 0
  · have hmono := rounded_mono Nat.one_pos (show n.natAbs ≤ magnitude x by omega)
    simp only [hn, decide_true, if_true]
    omega
  · simp only [hn, decide_false, Bool.false_eq_true, if_false]
    rcases le_or_gt 0 (units x) with hsign | hsign
    · have hmono := rounded_mono Nat.one_pos (show magnitude x ≤ n.natAbs by omega)
      omega
    · omega

/-- Rounding does not pass a double from below. -/
theorem ofUnits_le {n : ℤ} (hx : x.isFinite = true) (h : n ≤ units x) : ofUnits n ≤ x := by
  refine le_iff.mpr ⟨isNaN_ofUnits n, isNaN_of_isFinite hx, ?_⟩
  have hrep := rounded_of_representable (representable_magnitude x)
  have hlt := magnitude_lt hx
  have habs := natAbs_units x
  rw [ofUnits, ofUnitRatio, units_ofSignedUnitRatio _ _ Nat.one_pos, signed]
  by_cases hn : n < 0
  · simp only [hn, decide_true, if_true]
    rcases le_or_gt 0 (units x) with hsign | hsign
    · omega
    · have hmono := rounded_mono Nat.one_pos (show magnitude x ≤ n.natAbs by omega)
      omega
  · have hmono := rounded_mono Nat.one_pos (show n.natAbs ≤ magnitude x by omega)
    simp only [hn, decide_false, Bool.false_eq_true, if_false]
    omega

/-- The double nearest to a quotient of natural numbers is at least one if the quotient is. -/
theorem one_le_ofSignedUnitRatio {m n : ℕ} (hn : 0 < n) (h : n ≤ m) :
    1 ≤ ofSignedUnitRatio false (m * unitsPerOne) n := by
  refine le_iff.mpr ⟨isNaN_one, isNaN_ofSignedUnitRatio _ _ hn, ?_⟩
  have hle : 2 ^ unitExponent * n ≤ m * unitsPerOne := by
    rw [← unitsPerOne_eq, Nat.mul_comm]
    exact Nat.mul_le_mul_right _ h
  have hrounded := two_pow_le_rounded hn hle
  have hbound : 2 ^ unitExponent < unitsBound := two_pow_lt_unitsBound (by omega)
  rw [← unitsPerOne_eq] at hrounded hbound
  rw [units_ofSignedUnitRatio _ _ hn, units_one]
  exact Int.ofNat_le.mpr (Nat.le_min.mpr ⟨hrounded, hbound.le⟩)

/-- It is at most one if the quotient is. -/
theorem ofSignedUnitRatio_le_one {m n : ℕ} (hn : 0 < n) (h : m ≤ n) :
    ofSignedUnitRatio false (m * unitsPerOne) n ≤ 1 := by
  refine le_iff.mpr ⟨isNaN_ofSignedUnitRatio _ _ hn, isNaN_one, ?_⟩
  have hle : m * unitsPerOne ≤ 2 ^ unitExponent * n := by
    rw [← unitsPerOne_eq, Nat.mul_comm _ n]
    exact Nat.mul_le_mul_right _ h
  have hrounded := rounded_le_two_pow hn hle
  rw [← unitsPerOne_eq] at hrounded
  rw [units_ofSignedUnitRatio _ _ hn, units_one]
  exact Int.ofNat_le.mpr ((Nat.min_le_left _ _).trans hrounded)

/-- The double of a natural number. -/
theorem ofInt_natCast_ranges {n : ℕ} (h : Scalar.ofInt (n : ℤ) = .ok x) :
    x.isFinite = true ∧ 0 ≤ x ∧ (0 < n → 1 ≤ x) := by
  rw [ofInt_eq, Int.natAbs_natCast, ofRatio_natCast] at h
  split_ifs at h with hlt
  obtain rfl := Except.ok.inj h
  exact ⟨(isFinite_ofSignedUnitRatio _ _ Nat.one_pos).mpr hlt,
    ofSignedUnitRatio_nonneg Nat.one_pos (.inl rfl), one_le_ofSignedUnitRatio Nat.one_pos⟩

/-! ### Operations -/

/-- Numbers that are at least zero have a sign only where they are zero. -/
theorem isNegative_eq_false_or (h : 0 ≤ x) : isNegative x = false ∨ magnitude x = 0 := by
  have hunits := (nonneg_iff.mp h).2
  rw [units_eq_signed] at hunits
  cases hsign : isNegative x with
  | false => exact .inl rfl
  | true =>
      rw [hsign] at hunits
      simp only [signed, if_true] at hunits
      exact .inr (by omega)

protected theorem mul_nonneg (hx : 0 ≤ x) (hy : 0 ≤ y) (hxf : x.isFinite = true)
    (hyf : y.isFinite = true) : 0 ≤ x * y := by
  rw [mul_eq hxf hyf]
  refine ofSignedUnitRatio_nonneg unitsPerOne_pos ?_
  rcases isNegative_eq_false_or hx with hsx | hmx
  · rcases isNegative_eq_false_or hy with hsy | hmy
    · exact .inl (by rw [hsx, hsy]; rfl)
    · exact .inr (by rw [hmy, Nat.mul_zero])
  · exact .inr (by rw [hmx, Nat.zero_mul])

/-- From zero to a power of two, in ones. -/
def UpTo (k : ℕ) (x : Float) : Prop := 0 ≤ x ∧ Within (k + unitExponent) x

theorem UpTo.mono {k l : ℕ} (h : UpTo k x) (hkl : k ≤ l) : UpTo l x :=
  ⟨h.1, h.2.mono (Nat.add_le_add_right hkl _)⟩

theorem UpTo.mul {k l : ℕ} (hx : UpTo k x) (hy : UpTo l y) (hkl : k + l < 1024) :
    UpTo (k + l) (x * y) :=
  ⟨Double.mul_nonneg hx.1 hy.1 hx.2.1 hy.2.1, hx.2.mul hy.2 hkl⟩

theorem magnitude_le_unitsPerOne (h0 : 0 ≤ x) (h1 : x ≤ 1) : magnitude x ≤ unitsPerOne := by
  have hle := (le_iff.mp h1).2.2
  rw [units_of_nonneg (nonneg_iff.mp h0).2, units_one] at hle
  exact Int.ofNat_le.mp hle

theorem upTo_of_le_one (h0 : 0 ≤ x) (h1 : x ≤ 1) : UpTo 0 x := by
  refine ⟨h0, isFinite_of_le h0 h1 isFinite_one, ?_⟩
  rw [Nat.zero_add, ← unitsPerOne_eq]
  exact magnitude_le_unitsPerOne h0 h1

theorem upTo_zero : UpTo 0 0 := upTo_of_le_one zero_nonneg one_nonneg

theorem upTo_one : UpTo 0 1 := upTo_of_le_one one_nonneg Double.one_le_one

/-- A finite number times one that is at most one is finite. -/
theorem mul_ranges_of_le_one (hx : x.isFinite = true) (hx0 : 0 ≤ x) (h0 : 0 ≤ y) (h1 : y ≤ 1) :
    (x * y).isFinite = true ∧ 0 ≤ x * y := by
  have hy := isFinite_of_le h0 h1 isFinite_one
  refine ⟨?_, Double.mul_nonneg hx0 h0 hx hy⟩
  have hlt := lt_overflowBound (representable_magnitude x) (magnitude_lt hx)
  rw [mul_eq hx hy, isFinite_ofSignedUnitRatio _ _ unitsPerOne_pos,
    rounded_lt_unitsBound_iff unitsPerOne_pos]
  exact Nat.mul_lt_mul_of_lt_of_le hlt (magnitude_le_unitsPerOne h0 h1) unitsPerOne_pos

protected theorem mul_comm (hx : x.isFinite = true) (hy : y.isFinite = true) : x * y = y * x := by
  rw [mul_eq hx hy, mul_eq hy hx, bne_comm, Nat.mul_comm]

theorem isFinite_largest : largest.isFinite = true := by decide

theorem largest_nonneg : 0 ≤ largest := by decide

theorem magnitude_largest : magnitude largest = (2 ^ 53 - 1) * 2 ^ (971 + unitExponent) := by
  decide +kernel

/-- A multiple that is less than another one leaves room for the divisor. -/
theorem add_le_of_dvd {d v b : ℕ} (hv : d ∣ v) (hb : d ∣ b) (h : v < b) : v + d ≤ b := by
  obtain ⟨a, rfl⟩ := hv
  obtain ⟨c, rfl⟩ := hb
  have hac : a < c := Nat.lt_of_mul_lt_mul_left h
  exact Nat.mul_le_mul_left d hac

/-- A magnitude above one exceeds it by a unit in the last place. -/
theorem add_le_magnitude (h : unitsPerOne < magnitude x) :
    unitsPerOne + 2 ^ (unitExponent - 52) ≤ magnitude x := by
  rw [unitsPerOne_eq] at h ⊢
  have hbits : unitExponent - 52 ≤ droppedBits (magnitude x) := by
    have hlt := (Nat.pow_lt_pow_iff_right Nat.one_lt_two).mp
      (h.trans (lt_two_pow_droppedBits (magnitude x)))
    omega
  exact add_le_of_dvd (Nat.pow_dvd_pow 2 (Nat.sub_le _ _))
    ((Nat.pow_dvd_pow 2 hbits).trans (representable_magnitude x)) h

/-- What exceeds one by a unit in the last place takes 53 ones to the overflow bound. -/
theorem limit_mul_le {s t limit : ℕ} (hlimit : 2 * limit = (2 ^ 54 - 1) * 2 ^ s) :
    limit * (2 ^ 52 * t) ≤ (2 ^ 53 - 1) * 2 ^ s * (2 ^ 52 * t + t) := by
  refine Nat.le_of_mul_le_mul_left ?_ Nat.two_pos
  calc 2 * (limit * (2 ^ 52 * t)) = (2 ^ 54 - 1) * 2 ^ 52 * (2 ^ s * t) := by
        rw [← Nat.mul_assoc, hlimit]
        ring
    _ ≤ 2 * (2 ^ 53 - 1) * (2 ^ 52 + 1) * (2 ^ s * t) := Nat.mul_le_mul_right _ (by norm_num)
    _ = 2 * ((2 ^ 53 - 1) * 2 ^ s * (2 ^ 52 * t + t)) := by ring

/-- **The largest double** times a number is finite up to one. -/
theorem isFinite_largest_mul_iff (h0 : 0 ≤ x) (hx : x.isFinite = true) :
    (largest * x).isFinite = true ↔ x ≤ 1 := by
  constructor
  · intro h
    by_contra hle
    have hgt : unitsPerOne < magnitude x := by
      by_contra hnot
      refine hle (le_iff.mpr ⟨isNaN_of_isFinite hx, isNaN_one, ?_⟩)
      rw [units_of_nonneg (nonneg_iff.mp h0).2, units_one]
      exact_mod_cast not_lt.mp hnot
    have hlast := Nat.mul_le_mul_left (magnitude largest) (add_le_magnitude hgt)
    have hexp : 52 + (unitExponent - 52) = unitExponent := rfl
    have hone : 2 ^ 52 * 2 ^ (unitExponent - 52) = unitsPerOne := by
      rw [unitsPerOne_eq, ← Nat.pow_add, hexp]
    have hlimit := limit_mul_le (t := 2 ^ (unitExponent - 52)) two_mul_overflowBound
    rw [hone, ← magnitude_largest] at hlimit
    rw [mul_eq isFinite_largest hx, isFinite_ofSignedUnitRatio _ _ unitsPerOne_pos,
      rounded_lt_unitsBound_iff unitsPerOne_pos] at h
    exact absurd h (not_lt.mpr (hlimit.trans hlast))
  · exact fun h1 => (mul_ranges_of_le_one isFinite_largest largest_nonneg h0 h1).1

/-- Above one, it overflows. -/
theorem largest_mul_eq_infinity (h1 : 1 < x) (hx : x.isFinite = true) : largest * x = infinity := by
  have h0 : 0 ≤ x := Double.le_of_lt (Double.lt_of_le_of_lt one_nonneg h1)
  refine eq_infinity_of_nonneg (Double.mul_nonneg largest_nonneg h0 isFinite_largest hx) ?_
  rw [← Bool.not_eq_true, isFinite_largest_mul_iff h0 hx]
  exact fun hle => not_lt_of_le hle h1

/-- The word of a positive number of any exponent is at most that of the infinity. -/
theorem toNat_pack_positive_le {q : ℕ} {e : ℤ} (hq : 0 < q) :
    (pack Format.binary64 (.finite .positive q e hq)).toNat ≤ infinityBits := by
  rw [UnpackedFloat.pack]
  change (if 2 ^ 11 ≤ (e + 1023 + 52).toNat + 1 then packedInfinity Format.binary64 .positive
    else if q.log2 + 1 = 53 then
      packComponents Format.binary64 .positive (BitVec.ofNat 11 (e + 1023 + 52).toNat)
        (BitVec.ofNat 52 q)
    else packComponents Format.binary64 .positive 0#11 (BitVec.ofNat 52 q)).toNat ≤ _
  have hsign : Sign.positive.toBitVec.toNat = 0 := rfl
  rw [infinityBits]
  split_ifs with hinf hlog
  · rw [packedInfinity, toNat_packComponents,
      show (-1#_ : BitVec Format.binary64.exponentBits).toNat = 2047 from rfl, hsign]
    change 0 * 2 ^ 63 + 2047 * 2 ^ 52 + 0 ≤ _
    omega
  · rw [toNat_packComponents, BitVec.toNat_ofNat, BitVec.toNat_ofNat, hsign]
    omega
  · rw [toNat_packComponents, BitVec.toNat_ofNat, hsign]
    change 0 * 2 ^ 63 + 0 * 2 ^ 52 + q % 2 ^ 52 ≤ _
    omega

/-- A result that unpacks to a zero, or to a positive number or infinity, is at least zero. -/
theorem nonneg_of_pack {u : UnpackedFloat} (hx : x = Float.ofModel (Float.Model.pack u))
    (h : (∃ s, u = .zero s) ∨ u = .infinity .positive ∨
      ∃ (q : ℕ) (e : ℤ) (hq : 0 < q), u = .finite .positive q e hq) : 0 ≤ x := by
  have hinf : infinityBits < 2 ^ 63 := by decide
  have hword : ∀ {u : UnpackedFloat}, x = Float.ofModel (Float.Model.pack u) →
      (pack Format.binary64 u).toNat ≤ infinityBits → 0 ≤ x := by
    intro u hu hle
    have hbits : x.toBits.toNat ≤ infinityBits := by
      rw [hu]
      exact hle
    refine nonneg_of_absBits ?_ ?_
    · simpa [isNegative] using hbits.trans_lt hinf
    · exact (Nat.mod_le _ _).trans hbits
  rcases h with ⟨s, rfl⟩ | rfl | ⟨q, e, hq, rfl⟩
  · rw [hx]
    cases s <;> decide
  · exact hword hx (by decide)
  · exact hword hx (toNat_pack_positive_le hq)

/-- What the unpacked form of a number that is at least zero can be. -/
theorem unpack_of_nonneg (h : 0 ≤ x) : (∃ s, x.toModel.unpack = .zero s) ∨
    x.toModel.unpack = .infinity .positive ∨
    ∃ (q : ℕ) (e : ℤ) (hq : 0 < q), x.toModel.unpack = .finite .positive q e hq := by
  cases hfinite : x.isFinite with
  | false =>
      rw [eq_infinity_of_nonneg h hfinite]
      exact .inr (.inl unpack_infinity)
  | true =>
      rw [unpack_eq_unpacked (isFinite_iff.mp hfinite)]
      rcases Nat.eq_zero_or_pos (magnitude x) with h0 | hpos
      · rw [h0, unpacked_zero]
        exact .inl ⟨_, rfl⟩
      · obtain ⟨q, hq, -, -, hunp⟩ :=
          unpacked_of_pos (isNegative x) (representable_magnitude x) hpos
        have hsign := (isNegative_eq_false_or h).resolve_right hpos.ne'
        rw [hunp, hsign]
        exact .inr (.inr ⟨q, _, hq, rfl⟩)

protected theorem sqrt_nonneg (h : 0 ≤ x) : 0 ≤ Float.sqrt x := by
  refine nonneg_of_pack (u := UnpackedFloat.sqrt Format.binary64 x.toModel.unpack) rfl ?_
  rcases unpack_of_nonneg h with ⟨s, hx⟩ | hx | ⟨q, e, hq, hx⟩
  · rw [hx]
    exact .inl ⟨s, rfl⟩
  · rw [hx]
    exact .inr (.inl rfl)
  · rw [hx]
    simp only [UnpackedFloat.sqrt, roundWithAccuracy]
    split_ifs with h0
    · exact .inl ⟨_, rfl⟩
    · exact .inr (.inr ⟨_, _, Nat.pos_of_ne_zero h0, rfl⟩)

/-- **The infinity times a zero** is not a number. -/
theorem isNaN_infinity_mul (hy : y.isFinite = true) (h0 : magnitude y = 0) :
    (infinity * y).isNaN = true := by
  have hmul : infinity * y =
      Float.ofModel (Float.Model.pack (UnpackedFloat.mul Format.binary64 infinity.toModel.unpack
        y.toModel.unpack)) := rfl
  rw [hmul, unpack_infinity, unpack_eq_unpacked (isFinite_iff.mp hy), h0, unpacked_zero]
  cases isNegative y <;> decide

/-- What is not a number stays so in a product. -/
theorem isNaN_mul_of_isNaN (h : x.isNaN = true) (y : Float) : (x * y).isNaN = true := by
  have hmul : x * y = Float.ofModel (Float.Model.pack (UnpackedFloat.mul Format.binary64
      x.toModel.unpack y.toModel.unpack)) := rfl
  have hnan : UnpackedFloat.mul Format.binary64 .notANumber y.toModel.unpack = .notANumber := by
    cases y.toModel.unpack <;> rfl
  rw [hmul, unpack_eq_notANumber (isNaN_iff.mp h), hnan]
  decide

/-- What is not a number stays so in a quotient. -/
theorem isNaN_div_of_isNaN (h : x.isNaN = true) (y : Float) : (x / y).isNaN = true := by
  have hdiv : x / y = Float.ofModel (Float.Model.pack (UnpackedFloat.div Format.binary64
      x.toModel.unpack y.toModel.unpack)) := rfl
  have hnan : UnpackedFloat.div Format.binary64 .notANumber y.toModel.unpack = .notANumber := by
    cases y.toModel.unpack <;> rfl
  rw [hdiv, unpack_eq_notANumber (isNaN_iff.mp h), hnan]
  decide

protected theorem div_nonneg (hx : 0 ≤ x) (hy : 0 < y) (hyf : y.isFinite = true) : 0 ≤ x / y := by
  cases hxf : x.isFinite with
  | true =>
      rw [div_eq hxf hyf (magnitude_pos_of_pos hy)]
      refine ofSignedUnitRatio_nonneg (magnitude_pos_of_pos hy) ?_
      rcases isNegative_eq_false_or hx with hsx | hmx
      · exact .inl (by rw [hsx, isNegative_of_pos hy]; rfl)
      · exact .inr (by rw [hmx, Nat.zero_mul])
  | false =>
      refine nonneg_of_pack (u := UnpackedFloat.div Format.binary64 x.toModel.unpack
        y.toModel.unpack) rfl ?_
      obtain ⟨q, hq, -, -, hunp⟩ := unpacked_of_pos (isNegative y) (representable_magnitude y)
        (magnitude_pos_of_pos hy)
      rw [eq_infinity_of_nonneg hx hxf, unpack_infinity, unpack_eq_unpacked (isFinite_iff.mp hyf),
        hunp, isNegative_of_pos hy]
      exact .inr (.inl rfl)

/-- A part of the infinity is not finite. -/
theorem isFinite_infinity_div (hy : 0 < y) (hyf : y.isFinite = true) :
    (infinity / y).isFinite = false := by
  have hdiv : infinity / y = Float.ofModel (Float.Model.pack (UnpackedFloat.div Format.binary64
      infinity.toModel.unpack y.toModel.unpack)) := rfl
  obtain ⟨q, hq, -, -, hunp⟩ := unpacked_of_pos (isNegative y) (representable_magnitude y)
    (magnitude_pos_of_pos hy)
  have hquotient : UnpackedFloat.div Format.binary64 (.infinity .positive) y.toModel.unpack =
      .infinity .positive := by
    rw [unpack_eq_unpacked (isFinite_iff.mp hyf), hunp, isNegative_of_pos hy]
    rfl
  rw [hdiv, unpack_infinity, hquotient]
  decide

/-- A sum of numbers that are at least zero is at least zero. -/
protected theorem add_nonneg (hx : 0 ≤ x) (hy : 0 ≤ y) : 0 ≤ x + y := by
  have hpack : x + y = Float.ofModel (Float.Model.pack (UnpackedFloat.add Format.binary64
      x.toModel.unpack y.toModel.unpack)) := rfl
  have hinfinity : UnpackedFloat.add Format.binary64 x.toModel.unpack y.toModel.unpack =
      .infinity .positive → 0 ≤ x + y := fun h => nonneg_of_pack hpack (.inr (.inl h))
  cases hxf : x.isFinite with
  | false =>
      refine hinfinity ?_
      rw [eq_infinity_of_nonneg hx hxf, unpack_infinity]
      rcases unpack_of_nonneg hy with ⟨s, h⟩ | h | ⟨q, e, hq, h⟩ <;> rw [h] <;> rfl
  | true =>
      cases hyf : y.isFinite with
      | false =>
          refine hinfinity ?_
          rw [eq_infinity_of_nonneg hy hyf, unpack_infinity]
          rcases unpack_of_nonneg hx with ⟨s, h⟩ | h | ⟨q, e, hq, h⟩ <;> rw [h] <;> rfl
      | true =>
          have hxu := (nonneg_iff.mp hx).2
          have hyu := (nonneg_iff.mp hy).2
          rcases Nat.eq_zero_or_pos (magnitude x + magnitude y) with h0 | hpos
          · have hbits := absBits_add_of_eq_zero hxf hyf (by omega) (by omega)
            refine nonneg_iff.mpr ⟨isNaN_eq_false_iff.mpr (by omega), ?_⟩
            have hzero := magnitude_eq_zero_iff.mpr hbits
            have habs := natAbs_units (x + y)
            omega
          · rw [add_eq_ofUnits hxf hyf (by omega)]
            refine ofSignedUnitRatio_nonneg Nat.one_pos (.inl (decide_eq_false ?_))
            omega

section

variable (hx : x.isFinite = true) (hy : y.isFinite = true)
include hx hy

/-- What a finite number is less another one is a number. -/
theorem isNaN_sub : (x - y).isNaN = false := by
  rw [isNaN_eq_false_iff, absBits_sub hx hy, ← isNaN_eq_false_iff]
  exact isNaN_ofUnits _

/-- It is finite if it is below the bound from which on numbers are rounded to the infinity. -/
theorem isFinite_sub_iff :
    (x - y).isFinite = true ↔ (units x - units y).natAbs < overflowBound := by
  rw [isFinite_iff, absBits_sub hx hy, ← isFinite_iff, ofUnits, ofUnitRatio,
    isFinite_ofSignedUnitRatio _ _ Nat.one_pos, rounded_lt_unitsBound_iff Nat.one_pos, Nat.mul_one]

theorem magnitude_sub :
    magnitude (x - y) = min (rounded (units x - units y).natAbs 1) unitsBound := by
  rw [magnitude_eq_decode, absBits_sub hx hy, ← magnitude_eq_decode, ofUnits, ofUnitRatio,
    magnitude_ofSignedUnitRatio_eq _ _ Nat.one_pos]

/-- It is at least zero if the numbers are in order. -/
protected theorem sub_nonneg (h : y ≤ x) : 0 ≤ x - y := by
  have hle := Int.sub_nonneg_of_le (le_iff.mp h).2.2
  have hxabs := natAbs_units x
  have hyabs := natAbs_units y
  rcases Nat.eq_zero_or_pos (magnitude x + magnitude y) with h0 | hpos
  · -- the difference of two zeros has a sign of its own
    have hzero : (units x - units y).natAbs = 0 := by omega
    have hmagnitude := magnitude_sub hx hy
    have habs := natAbs_units (x - y)
    rw [hzero, rounded_zero, Nat.zero_min] at hmagnitude
    exact nonneg_iff.mpr ⟨isNaN_sub hx hy, by omega⟩
  · rw [sub_eq_ofUnits hx hy (by omega)]
    exact ofSignedUnitRatio_nonneg Nat.one_pos (.inl (decide_eq_false (not_lt.mpr hle)))

end

/-- A square is at least zero. -/
protected theorem mul_self_nonneg (h : x.isNaN = false) : 0 ≤ x * x := by
  cases hfinite : x.isFinite with
  | true =>
      rw [mul_eq hfinite hfinite, bne_self_eq_false]
      exact ofSignedUnitRatio_nonneg unitsPerOne_pos (.inl rfl)
  | false =>
      have hbits : absBits x = infinityBits := by
        refine (absBits_cases h).resolve_left fun hlt => ?_
        rw [isFinite_iff.mpr hlt] at hfinite
        cases hfinite
      refine nonneg_of_pack (u := UnpackedFloat.mul Format.binary64 x.toModel.unpack
        x.toModel.unpack) rfl (.inr (.inl ?_))
      rw [unpack_eq_infinity hbits]
      cases isNegative x <;> rfl

/-- A finite number by one that is at least one is finite. -/
theorem isFinite_div (hx : x.isFinite = true) (hy : y.isFinite = true) (hone : 1 ≤ y) :
    (x / y).isFinite = true := by
  have hmagnitude : unitsPerOne ≤ magnitude y := by
    have hle := (le_iff.mp hone).2.2
    have habs := natAbs_units y
    rw [units_one] at hle
    omega
  have hpos := unitsPerOne_pos.trans_le hmagnitude
  have hlt := lt_overflowBound (representable_magnitude x) (magnitude_lt hx)
  rw [div_eq hx hy hpos, isFinite_ofSignedUnitRatio _ _ hpos, rounded_lt_unitsBound_iff hpos]
  exact Nat.mul_lt_mul_of_lt_of_le hlt hmagnitude hpos

/-! ### Opposites -/

/-- The opposite of a finite number. -/
theorem units_neg (h : x.isFinite = true) : (-x).isFinite = true ∧ units (-x) = -units x := by
  have hneg : -x = Float.ofModel (Float.Model.pack x.toModel.unpack.neg) := rfl
  have hencode := (encode_lt_infinityBits (representable_magnitude x)).mpr (magnitude_lt h)
  rw [unpack_eq_unpacked (isFinite_iff.mp h), neg_unpacked, pack_unpacked,
    Nat.min_eq_left hencode.le] at hneg
  have hbits : absBits (-x) = encode (magnitude x) := by
    rw [hneg, absBits_ofSignedBits _ hencode.le]
  refine ⟨isFinite_iff.mpr (by rw [hbits]; exact hencode), ?_⟩
  rw [units_eq_signed, units_eq_signed, ← signed_not, magnitude_eq_decode, hbits,
    decode_encode (representable_magnitude x), hneg, isNegative_ofSignedBits _ hencode.le]

end Corridor.Double
