import Corridor.Proofs.Number.Encoding

/-!
# The Arithmetic of Doubles

Every operation on finite doubles is the exact one on their units, rounded once: sums and
differences through `Double.ofUnits`, products and quotients through `Double.ofSignedUnitRatio`,
the same function that every conversion to a double goes through.

## Main results

* `roundWithAccuracy_eq`: the rounding that all operations end in is `Double.rounded`.
* `add_eq_ofUnits`, `sub_eq_ofUnits`: a sum or difference is the double nearest to the exact one,
  unless both operands are zero, when it is a zero (`absBits_add_of_eq_zero`,
  `absBits_sub_of_eq_zero`).
* `mul_eq`, `div_eq`: products and quotients are the doubles nearest to the exact ones.
-/

namespace Corridor.Double

open Float.Model Float.Model.UnpackedFloat

/-! ### Mantissas with their residue -/

/-- The whole part of a quotient, with what rounding needs to know of the rest. -/
def residue (a b : ℕ) : ExtendedMantissa :=
  ExtendedMantissa.ofMantissaAndAccuracy (a / b) (accuracyOfFraction (a % b) b)

/-- The four ways in which a rest stands to one half. -/
theorem residue_eq (a b : ℕ) :
    residue a b = ⟨a / b, decide (a % b ≠ 0 ∧ b ≤ 2 * (a % b)),
      decide (a % b ≠ 0 ∧ b ≠ 2 * (a % b))⟩ := by
  rw [residue, accuracyOfFraction]
  split_ifs with h
  · simp [ExtendedMantissa.ofMantissaAndAccuracy, h]
  · rcases Nat.lt_trichotomy (2 * (a % b)) b with hlt | heq | hgt
    · rw [Nat.compare_eq_lt.mpr hlt]
      simp [ExtendedMantissa.ofMantissaAndAccuracy, h, hlt, hlt.ne']
    · rw [Nat.compare_eq_eq.mpr heq]
      simp [ExtendedMantissa.ofMantissaAndAccuracy, h, heq]
    · rw [Nat.compare_eq_gt.mpr hgt]
      simp [ExtendedMantissa.ofMantissaAndAccuracy, h, hgt.le, hgt.ne]

/-- A shift by one bit doubles the divisor. -/
theorem shiftRightOne_residue (a : ℕ) {b : ℕ} (hb : 0 < b) :
    (residue a b).shiftRightOne = residue a (b * 2) := by
  have hdiv : a / (b * 2) = a / b / 2 := (Nat.div_div_eq_div_mul a b 2).symm
  have hmod : a % (b * 2) = a % b + b * (a / b % 2) := Nat.mod_mul
  have hlt := Nat.mod_lt a hb
  rw [residue_eq, residue_eq, hdiv, hmod, ExtendedMantissa.shiftRightOne]
  rcases Nat.mod_two_eq_zero_or_one (a / b) with h | h <;> simp only [h] <;>
    simp only [ExtendedMantissa.mk.injEq, true_and] <;>
    constructor <;> grind

/-- A shift multiplies the divisor by a power of two. -/
theorem shiftRight_residue (a : ℕ) {b : ℕ} (hb : 0 < b) (n : ℕ) :
    residue a b >>> n = residue a (b * 2 ^ n) := by
  change n.repeat ExtendedMantissa.shiftRightOne (residue a b) = _
  induction n with
  | zero => simp [Nat.repeat]
  | succ n ih =>
      rw [Nat.repeat, ih, shiftRightOne_residue a (Nat.mul_pos hb (Nat.two_pow_pos n)),
        Nat.pow_succ, Nat.mul_assoc]

/-- The rounded mantissa is the rounded quotient. -/
theorem roundedMantissa_residue (a b : ℕ) :
    (residue a b).roundedMantissa = roundQuotient a b := by
  unfold roundQuotient
  dsimp only
  rw [residue_eq, ExtendedMantissa.roundedMantissa]
  split_ifs with h₁ h₂
  · by_cases h0 : a % b = 0 <;>
      simp [ExtendedMantissa.accuracy, Accuracy.roundToNearestEven, h0, h₁.not_ge, h₁.ne']
  · have h0 : a % b ≠ 0 := by omega
    simp [ExtendedMantissa.accuracy, Accuracy.roundToNearestEven, h0, h₂.le, h₂.ne]
  · have heq : b = 2 * (a % b) := by omega
    by_cases h0 : a % b = 0
    · obtain rfl : b = 0 := by omega
      simp [ExtendedMantissa.accuracy, Accuracy.roundToNearestEven, h0]
    · simp [ExtendedMantissa.accuracy, Accuracy.roundToNearestEven, h0, ← heq]

/-! ### The rounding of the operations -/

/-- The exponent of a rounded quotient counts the bits that are dropped. -/
theorem targetExponent_eq {a b i j : ℕ} (hb : 0 < b) (hlow : 2 ^ 52 ≤ a / b ∨ i ≤ j) :
    Format.binary64.targetExponent (totalExponent (a / b) ((i : ℤ) - j - 1074)) =
        droppedBits (a * 2 ^ i / (b * 2 ^ j)) - 1074 ∧
      i ≤ droppedBits (a * 2 ^ i / (b * 2 ^ j)) + j := by
  set L := (a / b).log2 with hL
  have hden : 0 < b * 2 ^ j := Nat.mul_pos hb (Nat.two_pow_pos j)
  have hbits : droppedBits (a * 2 ^ i / (b * 2 ^ j)) = L + i - j - 52 := by
    refine droppedBits_eq ?_ ?_
    · rcases Nat.eq_zero_or_pos (L + i - j - 52) with h0 | h0
      · exact .inr h0
      · have hpos : a / b ≠ 0 := by
          intro hc
          rw [hc] at hL hlow
          simp at hL
          omega
        refine .inl ((Nat.le_div_iff_mul_le hden).mpr ?_)
        have ha : 2 ^ L * b ≤ a := (Nat.le_div_iff_mul_le hb).mp (Nat.log2_self_le hpos)
        have hexp : 52 + (L + i - j - 52) + j = L + i := by omega
        calc 2 ^ (52 + (L + i - j - 52)) * (b * 2 ^ j)
            = 2 ^ (52 + (L + i - j - 52) + j) * b := by rw [Nat.pow_add]; ring
          _ = 2 ^ L * b * 2 ^ i := by
              rw [hexp, Nat.pow_add]; ring
          _ ≤ a * 2 ^ i := Nat.mul_le_mul_right _ ha
    · rw [Nat.div_lt_iff_lt_mul hden]
      have ha : a < 2 ^ (L + 1) * b := (Nat.div_lt_iff_lt_mul hb).mp Nat.lt_log2_self
      calc a * 2 ^ i < 2 ^ (L + 1) * b * 2 ^ i := Nat.mul_lt_mul_of_pos_right ha (Nat.two_pow_pos i)
        _ = 2 ^ (L + 1 + i) * b := by rw [Nat.pow_add 2 (L + 1)]; ring
        _ ≤ 2 ^ (53 + (L + i - j - 52) + j) * b :=
            Nat.mul_le_mul_right _ (Nat.pow_le_pow_right (by decide) (by omega))
        _ = 2 ^ (53 + (L + i - j - 52)) * (b * 2 ^ j) := by rw [Nat.pow_add]; ring
  have hL' : 2 ^ 52 ≤ a / b → 52 ≤ L := fun h => (Nat.le_log2 (by omega)).mpr h
  rw [hbits]
  constructor
  · have hmin : Format.binary64.minExponent = -1074 := by decide
    have hbits' : Format.binary64.mantissaBits = 53 := rfl
    rw [Format.targetExponent, totalExponent, hmin, hbits', ← hL]
    omega
  · omega

/-- A quotient is shifted until it has as many bits as a double keeps. -/
theorem shiftToTargetExponent_eq {a b i j : ℕ} (hb : 0 < b) (hlow : 2 ^ 52 ≤ a / b ∨ i ≤ j) :
    shiftToTargetExponent Format.binary64 (a / b) ((i : ℤ) - j - 1074)
        (accuracyOfFraction (a % b) b) =
      (residue a (b * 2 ^ (droppedBits (a * 2 ^ i / (b * 2 ^ j)) + j - i)),
        (droppedBits (a * 2 ^ i / (b * 2 ^ j)) : ℤ) - 1074) := by
  obtain ⟨ht, hle⟩ := targetExponent_eq hb hlow
  set D := droppedBits (a * 2 ^ i / (b * 2 ^ j))
  have hn : ((D : ℤ) - 1074 - ((i : ℤ) - j - 1074)).toNat = D + j - i := by omega
  unfold shiftToTargetExponent shiftToExponent
  dsimp only
  rw [ht, hn, ← shiftRight_residue a hb]
  refine Prod.ext rfl ?_
  dsimp only
  omega

/-- A mantissa and an exponent in the range of doubles are shifted to those of their product. -/
theorem shiftToTargetExponent_exact {r D : ℕ} (hr : 2 ^ 52 ≤ r ∨ D = 0) :
    shiftToTargetExponent Format.binary64 r ((D : ℤ) - 1074) .exact =
      (residue r (2 ^ (droppedBits (r * 2 ^ D) - D)), (droppedBits (r * 2 ^ D) : ℤ) - 1074) := by
  have h := shiftToTargetExponent_eq (a := r) (b := 1) (i := D) (j := 0) Nat.one_pos
    (by rwa [Nat.div_one, Nat.le_zero])
  simpa [accuracyOfFraction, Nat.mod_one] using h

/-- **The rounding of the operations**: a quotient `a / b` of units times `2 ^ i / 2 ^ j` is
rounded to the nearest magnitude. -/
theorem roundWithAccuracy_eq (negative : Bool) {a b i j : ℕ} (hb : 0 < b)
    (hlow : 2 ^ 52 ≤ a / b ∨ i ≤ j) :
    roundWithAccuracy Format.binary64 (signOf negative) (a / b) ((i : ℤ) - j - 1074)
        (accuracyOfFraction (a % b) b) =
      unpacked negative (rounded (a * 2 ^ i) (b * 2 ^ j)) := by
  obtain ⟨-, hle⟩ := targetExponent_eq hb hlow
  obtain ⟨hr, hor⟩ := roundQuotient_significand (a * 2 ^ i) (Nat.mul_pos hb (Nat.two_pow_pos j))
  have hfirst := shiftToTargetExponent_eq hb hlow
  set D := droppedBits (a * 2 ^ i / (b * 2 ^ j)) with hD
  have hscale : roundQuotient (a * 2 ^ i) (b * 2 ^ j * 2 ^ D) =
      roundQuotient a (b * 2 ^ (D + j - i)) := by
    rw [← roundQuotient_mul_right a (b * 2 ^ (D + j - i)) (Nat.two_pow_pos i), Nat.mul_assoc b,
      Nat.mul_assoc b, ← Nat.pow_add, ← Nat.pow_add]
    congr 3
    omega
  rw [hscale] at hr hor
  have hrounded : rounded (a * 2 ^ i) (b * 2 ^ j) =
      roundQuotient a (b * 2 ^ (D + j - i)) * 2 ^ D := by rw [rounded, ← hD, hscale]
  set r := roundQuotient a (b * 2 ^ (D + j - i)) with hr'
  have hsecond := shiftToTargetExponent_exact hor
  rw [roundWithAccuracy, hfirst]
  dsimp only
  rw [roundedMantissa_residue, ← hr', hsecond, hrounded]
  have hD' : D ≤ droppedBits (r * 2 ^ D) := by
    rcases hor with h | h
    · have := droppedBits_mono (Nat.mul_le_mul_right (2 ^ D) h)
      rwa [droppedBits_mul_two_pow D (by decide) (.inl le_rfl)] at this
    · omega
  have hquot : r * 2 ^ D / 2 ^ droppedBits (r * 2 ^ D) = r / 2 ^ (droppedBits (r * 2 ^ D) - D) := by
    conv_lhs => rw [← Nat.sub_add_cancel hD', Nat.pow_add]
    rw [Nat.mul_div_mul_right _ _ (Nat.two_pow_pos D)]
  have hmantissa : (residue r (2 ^ (droppedBits (r * 2 ^ D) - D))).mantissa =
      r / 2 ^ (droppedBits (r * 2 ^ D) - D) := by rw [residue_eq]
  rw [unpacked]
  simp only [hquot, hmantissa]

/-! ### Exact sums -/

/-- A signed magnitude. -/
def signed (negative : Bool) (u : ℕ) : ℤ := if negative then -(u : ℤ) else u

theorem units_eq_signed (x : Float) : units x = signed (isNegative x) (magnitude x) := rfl

theorem natAbs_signed (negative : Bool) (u : ℕ) : (signed negative u).natAbs = u := by
  cases negative <;> simp [signed]

theorem signed_not (negative : Bool) (u : ℕ) : signed (!negative) u = -signed negative u := by
  cases negative <;> simp [signed]

/-- A whole number of units is rounded whatever its exponent. -/
theorem round_eq (negative : Bool) {m : ℕ} (hm : 0 < m) (e : ℕ) :
    round Format.binary64 (signOf negative) m ((e : ℤ) - 1074) =
      unpacked negative (rounded (m * 2 ^ e) 1) := by
  have hmin : Format.binary64.minExponent = -1074 := by decide
  have hbits : Format.binary64.mantissaBits = 53 := rfl
  set t := Format.binary64.targetExponent (totalExponent m ((e : ℤ) - 1074)) with ht
  have ht' : t = max ((m.log2 : ℤ) + e - 52 - 1074) (-1074) := by
    rw [ht, Format.targetExponent, totalExponent, hmin, hbits]
    omega
  set c := ((e : ℤ) - 1074 - t).toNat with hc
  have hce : c ≤ e := by omega
  have hlow : 2 ^ 52 ≤ m * 2 ^ c / 1 ∨ e - c ≤ 0 := by
    rcases Nat.eq_zero_or_pos (e - c) with h0 | h0
    · exact .inr (by omega)
    · refine .inl ?_
      rw [Nat.div_one]
      calc 2 ^ 52 ≤ 2 ^ (m.log2 + c) := Nat.pow_le_pow_right (by decide) (by omega)
        _ = 2 ^ m.log2 * 2 ^ c := Nat.pow_add ..
        _ ≤ m * 2 ^ c := Nat.mul_le_mul_right _ (Nat.log2_self_le hm.ne')
  have h := roundWithAccuracy_eq negative (a := m * 2 ^ c) (b := 1) (i := e - c) (j := 0)
    Nat.one_pos hlow
  rw [Nat.mul_assoc, ← Nat.pow_add, Nat.add_sub_cancel' hce, Nat.pow_zero, Nat.one_mul,
    Nat.div_one, Nat.mod_one] at h
  rw [← h]
  rw [UnpackedFloat.round, decreaseExponent]
  dsimp only
  rw [← ht, ← hc, Nat.shiftLeft_eq]
  congr 1
  omega

/-- A signed whole number of units is rounded with its sign. -/
theorem normalize_eq (m : ℤ) (e : ℕ) :
    normalize Format.binary64 m ((e : ℤ) - 1074) .positive =
      unpacked (m * 2 ^ e < 0) (rounded (m * 2 ^ e).natAbs 1) := by
  have hpos : (0 : ℤ) < 2 ^ e := by positivity
  have hsign : m * 2 ^ e < 0 ↔ m < 0 := by
    rw [mul_neg_iff]
    omega
  have habs : (m * 2 ^ e).natAbs = m.natAbs * 2 ^ e := by
    rw [Int.natAbs_mul, Int.natAbs_pow]
    rfl
  rw [habs, decide_eq_decide.mpr hsign]
  rw [UnpackedFloat.normalize]
  rcases lt_trichotomy m 0 with h | rfl | h
  · rw [compare_lt_iff_lt.mpr h, decide_eq_true h, ← round_eq _ (Int.natAbs_pos.mpr h.ne)]
    dsimp only
    have htoNat : (-m).toNat = m.natAbs := by omega
    rw [htoNat]
    rfl
  · simp [rounded, roundQuotient, signOf]
  · rw [compare_gt_iff_gt.mpr h, decide_eq_false (by omega),
      ← round_eq _ (Int.natAbs_pos.mpr h.ne')]
    dsimp only
    have htoNat : m.toNat = m.natAbs := by omega
    rw [htoNat]
    rfl

/-- The parts of a representable magnitude that is not zero. -/
theorem unpacked_of_pos (negative : Bool) {u : ℕ} (hu : Representable u) (hpos : 0 < u) :
    ∃ (q : ℕ) (hq : 0 < q), u = q * 2 ^ droppedBits u ∧ (2 ^ 52 ≤ q ∨ droppedBits u = 0) ∧
      unpacked negative u = .finite (signOf negative) q (droppedBits u - 1074) hq := by
  have hdiv := Nat.div_mul_cancel hu
  have hq : 0 < u / 2 ^ droppedBits u := by
    rw [Nat.pos_iff_ne_zero]
    intro h
    rw [h, Nat.zero_mul] at hdiv
    omega
  refine ⟨_, hq, hdiv.symm, le_div_droppedBits u, ?_⟩
  rw [unpacked, dif_neg hq.ne']

theorem apply_signOf (negative : Bool) (n : ℕ) : (signOf negative).apply n = signed negative n := by
  cases negative <;> rfl

/-- A magnitude that is a double is rounded to itself, with its sign unless it is zero. -/
theorem unpacked_signed (negative : Bool) {u : ℕ} (hu : Representable u) (hpos : 0 < u) :
    unpacked (signed negative u < 0) (rounded (signed negative u).natAbs 1) =
      unpacked negative u := by
  rw [natAbs_signed, rounded_of_representable hu]
  congr 1
  cases negative <;> simp [signed]
  omega

/-- The sum of two signed magnitudes, of which one may be zero. -/
theorem add_unpacked (a b : Bool) {u v : ℕ} (hu : Representable u) (hv : Representable v)
    (h : 0 < u ∨ 0 < v) :
    UnpackedFloat.add Format.binary64 (unpacked a u) (unpacked b v) =
      unpacked (signed a u + signed b v < 0) (rounded (signed a u + signed b v).natAbs 1) := by
  rcases Nat.eq_zero_or_pos u with rfl | hu0
  · obtain ⟨q, hq, -, -, hunp⟩ := unpacked_of_pos b hv (by omega)
    have hzero : signed a 0 = 0 := by cases a <;> rfl
    rw [hzero, zero_add, unpacked_signed b hv (by omega), unpacked_zero, hunp]
    rfl
  rcases Nat.eq_zero_or_pos v with rfl | hv0
  · obtain ⟨q, hq, -, -, hunp⟩ := unpacked_of_pos a hu hu0
    have hzero : signed b 0 = 0 := by cases b <;> rfl
    rw [hzero, add_zero, unpacked_signed a hu hu0, unpacked_zero, hunp]
    rfl
  obtain ⟨q, hq, hqu, -, hunp⟩ := unpacked_of_pos a hu hu0
  obtain ⟨r, hr, hrv, -, hunp'⟩ := unpacked_of_pos b hv hv0
  set D := droppedBits u
  set E := droppedBits v
  have hmin : min ((D : ℤ) - 1074) ((E : ℤ) - 1074) = (min D E : ℕ) - 1074 := by omega
  have hD : ((D : ℤ) - 1074 - ((min D E : ℕ) - 1074)).toNat = D - min D E := by omega
  have hE : ((E : ℤ) - 1074 - ((min D E : ℕ) - 1074)).toNat = E - min D E := by omega
  have hscale : ∀ (c : Bool) (p k : ℕ), min D E ≤ k →
      signed c (p * 2 ^ (k - min D E)) * 2 ^ min D E = signed c (p * 2 ^ k) := by
    intro c p k hk
    have hpow : (2 : ℤ) ^ (k - min D E) * 2 ^ min D E = 2 ^ k := by
      rw [← pow_add, Nat.sub_add_cancel hk]
    cases c <;> simp [signed, mul_assoc, hpow]
  have hsum : (signed a (q * 2 ^ (D - min D E)) + signed b (r * 2 ^ (E - min D E))) *
      2 ^ min D E = signed a u + signed b v := by
    rw [add_mul, hscale a q D (Nat.min_le_left D E), hscale b r E (Nat.min_le_right D E), ← hqu,
      ← hrv]
  rw [hunp, hunp', ← hsum, ← normalize_eq]
  simp only [UnpackedFloat.add, decreaseExponent]
  rw [hmin, hD, hE, Nat.shiftLeft_eq, Nat.shiftLeft_eq, apply_signOf, apply_signOf]

theorem neg_signOf (negative : Bool) : -signOf negative = signOf (!negative) := by
  cases negative <;> rfl

theorem neg_unpacked (negative : Bool) (u : ℕ) :
    (unpacked negative u).neg = unpacked (!negative) u := by
  simp only [unpacked]
  rw [← neg_signOf]
  split_ifs <;> rfl

/-- A difference is the sum with the opposite. -/
theorem sub_eq_add (x y : UnpackedFloat) :
    UnpackedFloat.sub Format.binary64 x y = UnpackedFloat.add Format.binary64 x y.neg := by
  cases x with
  | finite s m e hm => cases y with
    | finite t n f hn =>
        cases t <;> simp [UnpackedFloat.sub, UnpackedFloat.add, UnpackedFloat.neg,
          decreaseExponent, Sign.apply]
        all_goals rfl
    | _ => rfl
  | _ => cases y <;> rfl

/-! ### Exact products and quotients -/

theorem signOf_mul (a b : Bool) : signOf a * signOf b = signOf (a != b) := by
  cases a <;> cases b <;> rfl

theorem signOf_div (a b : Bool) : signOf a / signOf b = signOf (a != b) := by
  cases a <;> cases b <;> rfl

theorem rounded_zero (den : ℕ) : rounded 0 den = 0 := by
  simp [rounded, roundQuotient]

/-- Equal quotients are rounded alike. -/
theorem rounded_congr {a b c d : ℕ} (hb : 0 < b) (hd : 0 < d) (h : a * d = c * b) :
    rounded a b = rounded c d := by
  rw [← rounded_mul_right a b hd, h, Nat.mul_comm b d, rounded_mul_right c d hb]

/-- The product of two signed magnitudes. -/
theorem mul_unpacked (a b : Bool) {u v : ℕ} (hu : Representable u) (hv : Representable v) :
    UnpackedFloat.mul Format.binary64 (unpacked a u) (unpacked b v) =
      unpacked (a != b) (rounded (u * v) unitsPerOne) := by
  rcases Nat.eq_zero_or_pos u with rfl | hu0
  · rw [Nat.zero_mul, rounded_zero, unpacked_zero, unpacked_zero, ← signOf_mul]
    rw [unpacked]
    split_ifs <;> rfl
  rcases Nat.eq_zero_or_pos v with rfl | hv0
  · rw [Nat.mul_zero, rounded_zero, unpacked_zero, unpacked_zero, ← signOf_mul]
    rw [unpacked]
    split_ifs <;> rfl
  obtain ⟨q, hq, hqu, hor, hunp⟩ := unpacked_of_pos a hu hu0
  obtain ⟨r, hr, hrv, hor', hunp'⟩ := unpacked_of_pos b hv hv0
  have hlow : 2 ^ 52 ≤ q * r / 1 ∨ droppedBits u + droppedBits v ≤ unitExponent := by
    rw [Nat.div_one]
    rcases hor with h | h
    · exact .inl (h.trans (Nat.le_mul_of_pos_right q hr))
    rcases hor' with h' | h'
    · exact .inl (h'.trans (Nat.le_mul_of_pos_left r hq))
    · exact .inr (by omega)
  have h := roundWithAccuracy_eq (a != b) Nat.one_pos hlow
  rw [Nat.one_mul, Nat.div_one, Nat.mod_one, ← unitsPerOne_eq] at h
  have huv : u * v = q * r * 2 ^ (droppedBits u + droppedBits v) := by
    conv_lhs => rw [hqu, hrv]
    rw [Nat.pow_add]
    ring
  rw [huv, ← h, hunp, hunp']
  simp only [UnpackedFloat.mul]
  rw [signOf_mul, show (unitExponent : ℤ) = 1074 from rfl]
  congr 1
  omega

/-- The quotient of two signed magnitudes of which the second is not zero. -/
theorem div_unpacked (a b : Bool) {u v : ℕ} (hu : Representable u) (hv : Representable v)
    (hv0 : 0 < v) :
    UnpackedFloat.div Format.binary64 (unpacked a u) (unpacked b v) =
      unpacked (a != b) (rounded (u * unitsPerOne) v) := by
  obtain ⟨r, hr, hrv, -, hunp'⟩ := unpacked_of_pos b hv hv0
  rcases Nat.eq_zero_or_pos u with rfl | hu0
  · rw [Nat.zero_mul, rounded_zero, unpacked_zero, unpacked_zero, ← signOf_div, hunp']
    rfl
  obtain ⟨q, hq, hqu, -, hunp⟩ := unpacked_of_pos a hu hu0
  have hmin : Format.binary64.minExponent = -1074 := by decide
  have hbits : Format.binary64.mantissaBits = 53 := rfl
  set D := droppedBits u
  set E := droppedBits v
  set t := min ((D : ℤ) - 1074 - (E - 1074)) (Format.binary64.targetExponent
    (totalExponent q ((D : ℤ) - 1074) - totalExponent r ((E : ℤ) - 1074))) with ht
  have ht' : t = min ((D : ℤ) - E) (max ((q.log2 : ℤ) + D - r.log2 - E - 53) (-1074)) := by
    rw [ht, Format.targetExponent, totalExponent, totalExponent, hmin, hbits]
    omega
  set c := ((D : ℤ) - 1074 - (E - 1074) - t).toNat with hc
  set i := (t + 1074).toNat with hi
  set j := (-(t + 1074)).toNat with hj
  have hlow : 2 ^ 52 ≤ q * 2 ^ c / r ∨ i ≤ j := by
    rcases Nat.eq_zero_or_pos i with h0 | h0
    · exact .inr (by omega)
    · refine .inl ((Nat.le_div_iff_mul_le hr).mpr ?_)
      calc 2 ^ 52 * r ≤ 2 ^ 52 * 2 ^ (r.log2 + 1) := Nat.mul_le_mul_left _ Nat.lt_log2_self.le
        _ = 2 ^ (52 + (r.log2 + 1)) := (Nat.pow_add ..).symm
        _ ≤ 2 ^ (q.log2 + c) := Nat.pow_le_pow_right (by decide) (by omega)
        _ = 2 ^ q.log2 * 2 ^ c := Nat.pow_add ..
        _ ≤ q * 2 ^ c := Nat.mul_le_mul_right _ (Nat.log2_self_le hq.ne')
  have h := roundWithAccuracy_eq (a != b) hr hlow
  have hratio : rounded (q * 2 ^ c * 2 ^ i) (r * 2 ^ j) = rounded (u * unitsPerOne) v := by
    refine rounded_congr (Nat.mul_pos hr (Nat.two_pow_pos j)) hv0 ?_
    have hexp : c + i + E = D + unitExponent + j := by
      have : unitExponent = 1074 := rfl
      omega
    have hpow : (2 : ℕ) ^ c * 2 ^ i * 2 ^ E = 2 ^ D * 2 ^ unitExponent * 2 ^ j := by
      rw [← Nat.pow_add, ← Nat.pow_add, ← Nat.pow_add, ← Nat.pow_add, hexp]
    rw [unitsPerOne_eq]
    calc q * 2 ^ c * 2 ^ i * v = q * r * (2 ^ c * 2 ^ i * 2 ^ E) := by rw [hrv]; ring
      _ = q * 2 ^ D * 2 ^ unitExponent * (r * 2 ^ j) := by rw [hpow]; ring
      _ = u * 2 ^ unitExponent * (r * 2 ^ j) := by rw [← hqu]
  rw [← hratio, ← h, hunp, hunp']
  simp only [UnpackedFloat.div, divCore]
  rw [← ht, ← hc, signOf_div, Nat.shiftLeft_eq]
  congr 1
  omega

/-! ### The operations on doubles -/

section

variable (negative : Bool) (num : ℕ) {den : ℕ} (hden : 0 < den)
include hden

/-- The nearest double is the packed form of the rounded magnitude. -/
theorem ofSignedUnitRatio_eq :
    ofSignedUnitRatio negative num den =
      Float.ofModel (Float.Model.pack (unpacked negative (rounded num den))) := by
  rw [pack_unpacked, ← nearestBits_eq num hden]
  rfl

theorem absBits_ofSignedUnitRatio :
    absBits (ofSignedUnitRatio negative num den) = min (encode (rounded num den)) infinityBits := by
  rw [ofSignedUnitRatio, nearestBits_eq num hden]
  exact absBits_ofSignedBits negative (Nat.min_le_right _ _)

/-- Nothing of a positive number is the positive zero. -/
theorem ofSignedUnitRatio_zero : ofSignedUnitRatio false 0 den = 0 := by
  rw [ofSignedUnitRatio, nearestBits_eq 0 hden, rounded_zero]
  exact eq_of_toBits (by decide)

theorem isNegative_ofSignedUnitRatio :
    isNegative (ofSignedUnitRatio negative num den) = negative := by
  rw [ofSignedUnitRatio, nearestBits_eq num hden]
  exact isNegative_ofSignedBits negative (Nat.min_le_right _ _)

/-- A nearest double is finite if the rounded magnitude is below the bound. -/
theorem isFinite_ofSignedUnitRatio :
    (ofSignedUnitRatio negative num den).isFinite = true ↔ rounded num den < unitsBound := by
  rw [isFinite_iff, absBits_ofSignedUnitRatio negative num hden,
    ← encode_lt_infinityBits (representable_rounded num hden)]
  omega

/-- The magnitude of a nearest double that is finite is the rounded one. -/
theorem magnitude_ofSignedUnitRatio (h : rounded num den < unitsBound) :
    magnitude (ofSignedUnitRatio negative num den) = rounded num den := by
  have hrep := representable_rounded num hden
  have hlt := (encode_lt_infinityBits hrep).mpr h
  rw [magnitude_eq_decode, absBits_ofSignedUnitRatio negative num hden, Nat.min_eq_left hlt.le,
    decode_encode hrep]

end

/-- Quotients that are rounded to the same magnitude have the same nearest double. -/
theorem ofSignedUnitRatio_congr (negative : Bool) {a b c d : ℕ} (hb : 0 < b) (hd : 0 < d)
    (h : rounded a b = rounded c d) :
    ofSignedUnitRatio negative a b = ofSignedUnitRatio negative c d := by
  rw [ofSignedUnitRatio_eq _ _ hb, ofSignedUnitRatio_eq _ _ hd, h]

section

variable {x y : Float} (hx : x.isFinite = true) (hy : y.isFinite = true)
include hx hy

/-- **Sums are rounded once**: the sum of two finite doubles is the double nearest to the sum of
their units, unless both are zero. -/
theorem add_eq_ofUnits (h : 0 < magnitude x ∨ 0 < magnitude y) :
    x + y = ofUnits (units x + units y) := by
  have hsum := add_unpacked (isNegative x) (isNegative y) (representable_magnitude x)
    (representable_magnitude y) h
  rw [← unpack_eq_unpacked (isFinite_iff.mp hx), ← unpack_eq_unpacked (isFinite_iff.mp hy)] at hsum
  rw [ofUnits, ofUnitRatio, ofSignedUnitRatio_eq _ _ Nat.one_pos]
  exact congrArg (fun u => Float.ofModel (Float.Model.pack u)) hsum

/-- **Differences are rounded once**: the difference of two finite doubles is the double nearest
to the difference of their units, unless both are zero. -/
theorem sub_eq_ofUnits (h : 0 < magnitude x ∨ 0 < magnitude y) :
    x - y = ofUnits (units x - units y) := by
  have hsum := add_unpacked (isNegative x) (!isNegative y) (representable_magnitude x)
    (representable_magnitude y) h
  rw [← neg_unpacked, ← unpack_eq_unpacked (isFinite_iff.mp hx),
    ← unpack_eq_unpacked (isFinite_iff.mp hy), ← sub_eq_add, signed_not, ← sub_eq_add_neg] at hsum
  rw [ofUnits, ofUnitRatio, ofSignedUnitRatio_eq _ _ Nat.one_pos]
  exact congrArg (fun u => Float.ofModel (Float.Model.pack u)) hsum

/-- **Products are rounded once.** -/
theorem mul_eq :
    x * y = ofSignedUnitRatio (isNegative x != isNegative y) (magnitude x * magnitude y)
      unitsPerOne := by
  have hmul := mul_unpacked (isNegative x) (isNegative y) (representable_magnitude x)
    (representable_magnitude y)
  rw [← unpack_eq_unpacked (isFinite_iff.mp hx), ← unpack_eq_unpacked (isFinite_iff.mp hy)] at hmul
  rw [ofSignedUnitRatio_eq _ _ unitsPerOne_pos]
  exact congrArg (fun u => Float.ofModel (Float.Model.pack u)) hmul

/-- **Quotients are rounded once.** -/
theorem div_eq (h : 0 < magnitude y) :
    x / y = ofSignedUnitRatio (isNegative x != isNegative y) (magnitude x * unitsPerOne)
      (magnitude y) := by
  have hdiv := div_unpacked (isNegative x) (isNegative y) (representable_magnitude x)
    (representable_magnitude y) h
  rw [← unpack_eq_unpacked (isFinite_iff.mp hx), ← unpack_eq_unpacked (isFinite_iff.mp hy)] at hdiv
  rw [ofSignedUnitRatio_eq _ _ h]
  exact congrArg (fun u => Float.ofModel (Float.Model.pack u)) hdiv

end

/-- A result that unpacks to a zero has no bits but its sign. -/
theorem absBits_of_pack {x : Float} {u : UnpackedFloat} (h : ∃ c, u = unpacked c 0)
    (hx : x = Float.ofModel (Float.Model.pack u)) : absBits x = 0 := by
  obtain ⟨c, rfl⟩ := h
  rw [hx, pack_unpacked]
  exact absBits_ofSignedBits c (Nat.zero_le _)

section

variable {x y : Float} (hx : x.isFinite = true) (hy : y.isFinite = true) (hx0 : magnitude x = 0)
  (hy0 : magnitude y = 0)
include hx hy hx0 hy0

/-- A sum of zeros is a zero. -/
theorem absBits_add_of_eq_zero : absBits (x + y) = 0 := by
  refine absBits_of_pack
    (u := UnpackedFloat.add Format.binary64 x.toModel.unpack y.toModel.unpack) ?_ rfl
  rw [unpack_eq_unpacked (isFinite_iff.mp hx), unpack_eq_unpacked (isFinite_iff.mp hy), hx0, hy0]
  cases isNegative x <;> cases isNegative y
  exacts [⟨false, rfl⟩, ⟨false, rfl⟩, ⟨false, rfl⟩, ⟨true, rfl⟩]

/-- A difference of zeros is a zero. -/
theorem absBits_sub_of_eq_zero : absBits (x - y) = 0 := by
  refine absBits_of_pack
    (u := UnpackedFloat.sub Format.binary64 x.toModel.unpack y.toModel.unpack) ?_ rfl
  rw [unpack_eq_unpacked (isFinite_iff.mp hx), unpack_eq_unpacked (isFinite_iff.mp hy), hx0, hy0]
  cases isNegative x <;> cases isNegative y
  exacts [⟨false, rfl⟩, ⟨false, rfl⟩, ⟨true, rfl⟩, ⟨false, rfl⟩]

end

end Corridor.Double
