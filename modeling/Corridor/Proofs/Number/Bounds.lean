import Corridor.Number.Scalar
import Corridor.Proofs.Number.Arithmetic

/-!
# Doubles of Bounded Magnitude

A bound by a power of two survives rounding, so bounds of exact results are bounds of rounded
ones. Integers, differences, products and quotients of doubles far below the largest one are
finite, with the bounds that their exact values have.

## Main results

* `within_ofSignedUnitRatio`: a bound of a quotient bounds the double nearest to it.
* `Within.sub`, `Within.mul`, `Within.div`: bounds of the operations.
* `ofInt_eq_ok`: an integer below a power of two has a double.
* `absBits_add_ne_zero`: a sum of two numbers that are not negative is zero only if both are.
-/

namespace Corridor.Double

open Float.Model

/-- Finite and at most a power of two in units. -/
def Within (k : ℕ) (x : Float) : Prop := x.isFinite = true ∧ magnitude x ≤ 2 ^ k

variable {k l : ℕ} {x y : Float}

theorem Within.mono (h : Within k x) (hkl : k ≤ l) : Within l x :=
  ⟨h.1, h.2.trans (Nat.pow_le_pow_right (by decide) hkl)⟩

/-- The exponents of the powers of two that are finite doubles. -/
theorem two_pow_lt_unitsBound (hk : k < 1024 + unitExponent) : 2 ^ k < unitsBound :=
  Nat.pow_lt_pow_right (by decide) hk

/-- A bound of a quotient bounds the double nearest to it. -/
theorem within_ofSignedUnitRatio (negative : Bool) {num den : ℕ} (hden : 0 < den)
    (hk : k < 1024 + unitExponent) (h : num ≤ 2 ^ k * den) :
    Within k (ofSignedUnitRatio negative num den) := by
  have hle := rounded_le_two_pow hden h
  have hlt := lt_of_le_of_lt hle (two_pow_lt_unitsBound hk)
  refine ⟨(isFinite_ofSignedUnitRatio negative num hden).mpr hlt, ?_⟩
  rwa [magnitude_ofSignedUnitRatio negative num hden hlt]

theorem within_ofUnits {n : ℤ} (hk : k < 1024 + unitExponent) (h : n.natAbs ≤ 2 ^ k) :
    Within k (ofUnits n) :=
  within_ofSignedUnitRatio _ Nat.one_pos hk (by rwa [Nat.mul_one])

theorem natAbs_units (x : Float) : (units x).natAbs = magnitude x := by
  rw [units_eq_signed, natAbs_signed]

/-- Equal magnitudes without bits are zero. -/
theorem magnitude_eq_zero_iff : magnitude x = 0 ↔ absBits x = 0 := by
  rw [magnitude_eq_decode]
  constructor
  · intro h
    rw [← encode_decode (absBits x), h]
    rfl
  · intro h
    rw [h]
    rfl

theorem isFinite_of_absBits_eq_zero (h : absBits x = 0) : x.isFinite = true :=
  isFinite_iff.mpr (by rw [h]; decide)

/-- A difference is rounded once, but for the sign of a zero. -/
theorem absBits_sub (hx : x.isFinite = true) (hy : y.isFinite = true) :
    absBits (x - y) = absBits (ofUnits (units x - units y)) := by
  rcases Nat.eq_zero_or_pos (magnitude x + magnitude y) with h0 | hpos
  · have hunits : (units x - units y).natAbs = 0 := by
      have hux := natAbs_units x
      have huy := natAbs_units y
      omega
    have hencode : encode 0 = 0 := rfl
    rw [absBits_sub_of_eq_zero hx hy (by omega) (by omega), ofUnits, ofUnitRatio, hunits,
      absBits_ofSignedUnitRatio _ _ Nat.one_pos, rounded_zero, hencode, Nat.zero_min]
  · rw [sub_eq_ofUnits hx hy (by omega)]

/-- A difference is at most twice as large as the larger of its parts. -/
theorem Within.sub (hx : Within k x) (hy : Within k y) (hk : k + 1 < 1024 + unitExponent) :
    Within (k + 1) (x - y) := by
  have hux := natAbs_units x
  have huy := natAbs_units y
  have hxk := hx.2
  have hyk := hy.2
  rw [Within, isFinite_iff, magnitude_eq_decode, absBits_sub hx.1 hy.1, ← isFinite_iff,
    ← magnitude_eq_decode]
  refine within_ofUnits hk ?_
  rw [Nat.pow_succ]
  omega

/-- The bounds of the factors of a product, both taken in ones. -/
theorem Within.mul (hx : Within (k + unitExponent) x) (hy : Within (l + unitExponent) y)
    (hkl : k + l < 1024) : Within (k + l + unitExponent) (x * y) := by
  rw [mul_eq hx.1 hy.1]
  refine within_ofSignedUnitRatio _ unitsPerOne_pos (by omega) ?_
  calc magnitude x * magnitude y ≤ 2 ^ (k + unitExponent) * 2 ^ (l + unitExponent) :=
        Nat.mul_le_mul hx.2 hy.2
    _ = 2 ^ (k + l + unitExponent) * unitsPerOne := by
        rw [unitsPerOne_eq, ← Nat.pow_add, ← Nat.pow_add, show k + unitExponent +
          (l + unitExponent) = k + l + unitExponent + unitExponent by omega]

/-- A quotient by a number that is at least a power of two. -/
theorem Within.div_of_two_pow_le {j : ℕ} (hx : Within k x) (hl : l < 1024 + unitExponent)
    (hy : y.isFinite = true) (hpow : 2 ^ j ≤ magnitude y) (hkl : k + unitExponent ≤ l + j) :
    Within l (x / y) := by
  have hpos : 0 < magnitude y := (Nat.two_pow_pos j).trans_le hpow
  rw [div_eq hx.1 hy hpos]
  refine within_ofSignedUnitRatio _ hpos hl ?_
  calc magnitude x * unitsPerOne ≤ 2 ^ k * unitsPerOne := Nat.mul_le_mul_right _ hx.2
    _ = 2 ^ (k + unitExponent) := by rw [unitsPerOne_eq, Nat.pow_add]
    _ ≤ 2 ^ (l + j) := Nat.pow_le_pow_right Nat.two_pos hkl
    _ = 2 ^ l * 2 ^ j := Nat.pow_add _ _ _
    _ ≤ 2 ^ l * magnitude y := Nat.mul_le_mul_left _ hpow

/-- A quotient by a number that is at least one is no larger than what is divided. -/
theorem Within.div (hx : Within k x) (hk : k < 1024 + unitExponent) (hy : y.isFinite = true)
    (hone : unitsPerOne ≤ magnitude y) : Within k (x / y) :=
  hx.div_of_two_pow_le hk hy (unitsPerOne_eq ▸ hone) le_rfl

/-! ### Integers -/

theorem natAbs_mul_unitsPerOne (n : ℤ) : (n * unitsPerOne).natAbs = n.natAbs * unitsPerOne := by
  rw [Int.natAbs_mul, Int.natAbs_natCast]

/-- The double of a quotient of natural numbers. -/
theorem ofRatio_natCast (n den : ℕ) :
    ofRatio n den = ofSignedUnitRatio false (n * unitsPerOne) den := by
  have hsign : ¬(n : ℤ) * unitsPerOne < 0 := by
    rw [not_lt]
    exact_mod_cast Nat.zero_le _
  rw [ofRatio, ofUnitRatio, decide_eq_false hsign, natAbs_mul_unitsPerOne, Int.natAbs_natCast]

theorem ofInt_of_eq_some {n : ℤ} {x : Float} (h : ofInt? n = some x) :
    (Scalar.ofInt n : Except ArithmeticFault Float) = .ok x := by
  simp only [Scalar.ofInt, h]

theorem ofInt_of_eq_none {n : ℤ} (h : ofInt? n = none) :
    (Scalar.ofInt n : Except ArithmeticFault Float) = .error .integerTooLarge := by
  simp only [Scalar.ofInt, h]

theorem ofInt_eq (n : ℤ) :
    (Scalar.ofInt n : Except ArithmeticFault Float) =
      if rounded (n.natAbs * unitsPerOne) 1 < unitsBound then .ok (ofRatio n 1)
      else .error .integerTooLarge := by
  have habs := natAbs_mul_unitsPerOne n
  have hfin := isFinite_ofSignedUnitRatio (decide (n * unitsPerOne < 0)) (n.natAbs * unitsPerOne)
    Nat.one_pos
  rw [← habs] at hfin ⊢
  have hinteger : ofInt? n =
      if rounded (n * unitsPerOne).natAbs 1 < unitsBound then some (ofRatio n 1) else none :=
    if_congr hfin rfl rfl
  by_cases h : rounded (n * unitsPerOne).natAbs 1 < unitsBound
  · rw [if_pos h] at hinteger ⊢
    exact ofInt_of_eq_some hinteger
  · rw [if_neg h] at hinteger ⊢
    exact ofInt_of_eq_none hinteger

/-- An integer that is at most a power of two has a double, which is at least one unless the
integer is zero. -/
theorem ofInt_eq_ok {n : ℤ} (hk : k < 1024) (hn : n.natAbs ≤ 2 ^ k) :
    ∃ x : Float, Scalar.ofInt n = .ok x ∧ Within (k + unitExponent) x ∧
      (n ≠ 0 → unitsPerOne ≤ magnitude x) := by
  have hle : n.natAbs * unitsPerOne ≤ 2 ^ (k + unitExponent) * 1 := by
    rw [Nat.mul_one, Nat.pow_add, ← unitsPerOne_eq]
    exact Nat.mul_le_mul_right _ hn
  have hlt := lt_of_le_of_lt (rounded_le_two_pow Nat.one_pos hle)
    (two_pow_lt_unitsBound (k := k + unitExponent) (by omega))
  have habs := natAbs_mul_unitsPerOne n
  refine ⟨_, by rw [ofInt_eq, if_pos hlt], ?_, fun h0 => ?_⟩
  · rw [ofRatio, ofUnitRatio, habs]
    exact within_ofSignedUnitRatio _ Nat.one_pos (by omega) hle
  · rw [ofRatio, ofUnitRatio, habs, magnitude_ofSignedUnitRatio _ _ Nat.one_pos hlt, unitsPerOne_eq]
    refine two_pow_le_rounded Nat.one_pos ?_
    rw [Nat.mul_one]
    exact Nat.le_mul_of_pos_left _ (Int.natAbs_pos.mpr h0)

/-- Integers between zero and one that has a double have doubles. -/
theorem ofInt_of_le {m n : ℤ} {x : Float} (hm : 0 ≤ m) (hmn : m ≤ n)
    (hn : Scalar.ofInt n = .ok x) : ∃ y : Float, Scalar.ofInt m = .ok y := by
  rw [ofInt_eq] at hn
  have hlt : rounded (n.natAbs * unitsPerOne) 1 < unitsBound := by
    by_contra h
    rw [if_neg h] at hn
    cases hn
  have habs : m.natAbs ≤ n.natAbs := by omega
  have hle := rounded_mono Nat.one_pos (Nat.mul_le_mul_right unitsPerOne habs)
  exact ⟨_, by rw [ofInt_eq, if_pos (lt_of_le_of_lt hle hlt)]⟩

theorem ofInt_zero : (Scalar.ofInt 0 : Except ArithmeticFault Float) = .ok 0 := by
  rw [ofInt_eq, Int.natAbs_zero, Nat.zero_mul, rounded_zero,
    if_pos unitsBound_pos]
  rw [ofRatio, ofUnitRatio, Int.zero_mul]
  exact congrArg Except.ok (eq_of_toBits (by decide))

/-! ### Comparisons and zero -/

theorem magnitude_zero : magnitude 0 = 0 := by
  decide

theorem isNegative_zero : isNegative 0 = false := by
  decide

theorem units_zero : units 0 = 0 := by
  rw [units_eq_signed, magnitude_zero, isNegative_zero]
  rfl

theorem unpack_zero : (0 : Float).toModel.unpack = .zero .positive := by
  rw [unpack_eq_unpacked (by decide), magnitude_zero, unpacked_zero]
  rfl

theorem unpack_infinity : infinity.toModel.unpack = .infinity .positive := by
  rw [unpack_eq_infinity (by decide)]
  rfl

/-- The numbers equal to zero are those without bits but a sign. -/
theorem beq_zero_iff : (x == 0) = true ↔ absBits x = 0 := by
  change ((x.toModel.unpack.compare (0 : Float).toModel.unpack) == some .eq) = true ↔ _
  rw [unpack_zero]
  rcases Nat.lt_trichotomy (absBits x) infinityBits with h | h | h
  · rw [unpack_eq_unpacked h, ← magnitude_eq_zero_iff]
    rcases Nat.eq_zero_or_pos (magnitude x) with h0 | h0
    · simp [h0, UnpackedFloat.compare]
    · obtain ⟨q, hq, -, -, hunp⟩ := unpacked_of_pos (isNegative x) (representable_magnitude x) h0
      rw [hunp]
      cases isNegative x <;> simp [UnpackedFloat.compare, signOf, h0.ne']
  · rw [unpack_eq_infinity h, h]
    cases isNegative x <;> decide
  · rw [unpack_eq_notANumber h]
    simp [UnpackedFloat.compare]
    omega

/-- No number is greater than the positive infinity. -/
theorem not_infinity_lt (x : Float) : ¬infinity < x := by
  intro h
  have h : (infinity.toModel.unpack.compare x.toModel.unpack == some .lt) = true :=
    of_decide_eq_true h
  rw [unpack_infinity] at h
  cases hx : x.toModel.unpack with
  | infinity s => cases s <;> simp [hx, UnpackedFloat.compare] at h
  | _ => simp [hx, UnpackedFloat.compare] at h

/-- A sum of numbers that are not negative is zero only if they are. -/
theorem absBits_add_ne_zero (hx : isNegative x = false) (hy : isNegative y = false)
    (hx' : absBits x ≤ infinityBits) (hy' : absBits y ≤ infinityBits)
    (h : absBits x ≠ 0 ∨ absBits y ≠ 0) : absBits (x + y) ≠ 0 := by
  have hinf : absBits (Float.ofModel (Float.Model.pack (.infinity .positive))) ≠ 0 := by decide
  rcases hx'.lt_or_eq with hxlt | hxeq
  · rcases hy'.lt_or_eq with hylt | hyeq
    · have hpos : 0 < magnitude x ∨ 0 < magnitude y :=
        h.imp (fun hx0 => Nat.pos_of_ne_zero (mt magnitude_eq_zero_iff.mp hx0))
          fun hy0 => Nat.pos_of_ne_zero (mt magnitude_eq_zero_iff.mp hy0)
      have hunits : 0 < (units x + units y).natAbs := by
        rw [units_eq_signed, units_eq_signed, hx, hy]
        simp only [signed, Bool.false_eq_true, if_false]
        omega
      rw [add_eq_ofUnits (isFinite_iff.mpr hxlt) (isFinite_iff.mpr hylt) hpos, ofUnits,
        ofUnitRatio, absBits_ofSignedUnitRatio _ _ Nat.one_pos]
      have hrounded := rounded_pos hunits
      have hencode : encode (rounded (units x + units y).natAbs 1) ≠ 0 := by
        intro h0
        have hdecode := decode_encode (representable_rounded (units x + units y).natAbs Nat.one_pos)
        rw [h0] at hdecode
        exact hrounded.ne hdecode
      have : infinityBits ≠ 0 := by decide
      omega
    · have hsum : UnpackedFloat.add Format.binary64 x.toModel.unpack y.toModel.unpack =
          .infinity .positive := by
        rw [unpack_eq_unpacked hxlt, unpack_eq_infinity hyeq, hy]
        rw [unpacked]
        split_ifs <;> rfl
      change absBits (Float.ofModel (Float.Model.pack _)) ≠ 0
      rwa [hsum]
  · have hsum : UnpackedFloat.add Format.binary64 x.toModel.unpack y.toModel.unpack =
        .infinity .positive := by
      rw [unpack_eq_infinity hxeq, hx]
      rcases hy'.lt_or_eq with hylt | hyeq
      · rw [unpack_eq_unpacked hylt]
        rw [unpacked]
        split_ifs <;> rfl
      · rw [unpack_eq_infinity hyeq, hy]
        rfl
    change absBits (Float.ofModel (Float.Model.pack _)) ≠ 0
    rwa [hsum]

end Corridor.Double
