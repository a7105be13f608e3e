import Corridor.Proofs.Exact
import Corridor.Proofs.Number.Sign
import Mathlib.Analysis.SpecialFunctions.Log.Basic

/-!
# Elementary Functions That Are Faithful

The values of logarithms, exponentials and powers are decided by the platform. What is asked of it
here is that they are faithful: no double lies between a value and the real number that it stands
for. Signs and bounds of the real functions are then those of the functions on doubles.

## Main results

* `Brackets.nonneg`, `Brackets.within`: signs and bounds of a double that is faithful to a number.
* `Elementary.isFaithful_exact`: functions that are faithful.
* `Elementary.exists_logarithm`, `Elementary.exp_neg_ranges`, `Elementary.upTo_root`: the values of
  faithful functions where the scores take them.
-/

namespace Corridor.Double

variable {f x y : Float} {r : ℝ} {k : ℕ}

/-! ### Doubles as real numbers -/

theorem unitsPerOne_pos_real : (0 : ℝ) < unitsPerOne := by
  exact_mod_cast unitsPerOne_pos

theorem toReal_mono (h : x ≤ y) : toReal x ≤ toReal y := by
  rw [toReal, toReal, div_le_div_iff_of_pos_right unitsPerOne_pos_real, Int.cast_le]
  exact (le_iff.mp h).2.2

theorem toReal_zero : toReal 0 = 0 := by
  rw [toReal, units_zero, Int.cast_zero, zero_div]

theorem toReal_one : toReal 1 = 1 := by
  rw [toReal, units_one, Int.cast_natCast, div_self unitsPerOne_pos_real.ne']

theorem toReal_nonneg (h : 0 ≤ x) : 0 ≤ toReal x := toReal_zero ▸ toReal_mono h

theorem toReal_pos (h : 0 < x) : 0 < toReal x :=
  div_pos (Int.cast_pos.mpr (pos_iff.mp h).2) unitsPerOne_pos_real

theorem toReal_nonpos (h : units x ≤ 0) : toReal x ≤ 0 :=
  div_nonpos_of_nonpos_of_nonneg (Int.cast_nonpos.mpr h) unitsPerOne_pos_real.le

/-- A bound of a magnitude, in ones. -/
theorem toReal_le_two_pow (h : Within (k + unitExponent) x) : toReal x ≤ 2 ^ k := by
  have hunits : units x ≤ (2 ^ k * unitsPerOne : ℕ) := by
    have hle := h.2
    have habs := natAbs_units x
    rw [Nat.pow_add, ← unitsPerOne_eq] at hle
    omega
  rw [toReal, div_le_iff₀ unitsPerOne_pos_real]
  exact_mod_cast hunits

/-- A finite double is less than two to the power of 1024. -/
theorem toReal_lt (h : x.isFinite = true) : toReal x < 2 ^ 1024 := by
  have hunits : units x < (2 ^ 1024 * unitsPerOne : ℕ) := by
    have hlt := magnitude_lt h
    have habs := natAbs_units x
    rw [unitsBound_eq] at hlt
    omega
  have hcast : ((2 ^ 1024 * unitsPerOne : ℕ) : ℝ) = 2 ^ 1024 * unitsPerOne := by
    rw [Nat.cast_mul, Nat.cast_pow, Nat.cast_ofNat]
  rw [toReal, div_lt_iff₀ unitsPerOne_pos_real, ← hcast, ← Int.cast_natCast]
  exact Int.cast_lt.mpr hunits

/-! ### Faithful doubles -/

/-- No finite double lies between a double and a real number. -/
structure Brackets (f : Float) (r : ℝ) : Prop where
  number : f.isNaN = false
  ge : ∀ y : Float, y.isFinite = true → toReal y ≤ r → y ≤ f
  le : ∀ y : Float, y.isFinite = true → r ≤ toReal y → f ≤ y

theorem Brackets.nonneg (h : Brackets f r) (hr : 0 ≤ r) : 0 ≤ f :=
  h.ge 0 isFinite_zero (by rwa [toReal_zero])

theorem Brackets.le_one (h : Brackets f r) (hr : r ≤ 1) : f ≤ 1 :=
  h.le 1 isFinite_one (by rwa [toReal_one])

/-- The double of a power of two. -/
theorem exists_two_pow (hk : k < 1024) :
    ∃ y : Float, y.isFinite = true ∧ magnitude y = 2 ^ (k + unitExponent) ∧ toReal y = 2 ^ k := by
  have hle : 2 ^ (k + unitExponent) * 1 ≤ 2 ^ (k + unitExponent) * 1 := le_rfl
  have hrounded : rounded (2 ^ (k + unitExponent) * 1) 1 = 2 ^ (k + unitExponent) :=
    le_antisymm (rounded_le_two_pow Nat.one_pos hle) (two_pow_le_rounded Nat.one_pos hle)
  have hlt : rounded (2 ^ (k + unitExponent) * 1) 1 < unitsBound := by
    rw [hrounded]
    exact two_pow_lt_unitsBound (by omega)
  have hunits : units (ofSignedUnitRatio false (2 ^ (k + unitExponent) * 1) 1) =
      (2 ^ (k + unitExponent) : ℕ) := by
    rw [units_ofSignedUnitRatio _ _ Nat.one_pos, Nat.min_eq_left hlt.le, hrounded]
    rfl
  refine ⟨ofSignedUnitRatio false (2 ^ (k + unitExponent) * 1) 1,
    (isFinite_ofSignedUnitRatio _ _ Nat.one_pos).mpr hlt, ?_, ?_⟩
  · rw [magnitude_ofSignedUnitRatio _ _ Nat.one_pos hlt, hrounded]
  · rw [toReal, hunits, Nat.pow_add, ← unitsPerOne_eq, Int.cast_natCast, Nat.cast_mul,
      mul_div_cancel_right₀ _ unitsPerOne_pos_real.ne', Nat.cast_pow, Nat.cast_ofNat]

/-- A bound by a power of two is one of the double, too. -/
theorem Brackets.within (h : Brackets f r) (hr : 0 ≤ r) (hk : k < 1024) (hrk : r ≤ 2 ^ k) :
    Within (k + unitExponent) f := by
  obtain ⟨y, hy, hmagnitude, hreal⟩ := exists_two_pow hk
  have hle := h.le y hy (by rwa [hreal])
  have hnonneg := h.nonneg hr
  refine ⟨isFinite_of_le hnonneg hle hy, ?_⟩
  have hunits := (le_iff.mp hle).2.2
  have hf := units_of_nonneg (nonneg_iff.mp hnonneg).2
  have habs := natAbs_units y
  omega

/-- A double near a real number: that of the greatest number of units below it. -/
noncomputable def near (r : ℝ) : Float := ofUnits ⌊r * unitsPerOne⌋

/-- A double near a real number is faithful to it. -/
theorem brackets_near (r : ℝ) : Brackets (near r) r := by
  refine ⟨isNaN_ofUnits _, fun y hy h => ?_, fun y hy h => ?_⟩
  · refine le_ofUnits hy (Int.le_floor.mpr ?_)
    rwa [toReal, div_le_iff₀ unitsPerOne_pos_real] at h
  · refine ofUnits_le hy (Int.cast_le.mp ((Int.floor_le _).trans ?_))
    rwa [toReal, le_div_iff₀ unitsPerOne_pos_real] at h

/-! ### Elementary functions -/

namespace Elementary

/-- Functions on doubles that are faithful to those on real numbers. -/
structure IsFaithful (e : Elementary) : Prop where
  log : ∀ x : Float, x.isFinite = true → 0 < x → Brackets (e.log x) (Real.log (toReal x))
  exp : ∀ x : Float, x.isFinite = true → Brackets (e.exp x) (Real.exp (toReal x))
  exp_infinity : e.exp (-infinity) = 0
  pow : ∀ x y : Float, x.isFinite = true → y.isFinite = true → 0 ≤ x → 0 < y →
    Brackets (e.pow x y) (toReal x ^ toReal y)
  pow_infinity : ∀ y : Float, y.isFinite = true → 0 < y → e.pow infinity y = infinity

/-- The functions on real numbers, rounded. -/
noncomputable def exact : Elementary where
  log x := near (Real.log (toReal x))
  exp x := if x.isInf then 0 else near (Real.exp (toReal x))
  pow x y := if x.isInf then infinity else near (toReal x ^ toReal y)

theorem isInf_of_isFinite (h : x.isFinite = true) : x.isInf = false := by
  rw [← Bool.not_eq_true, isInf_iff]
  exact (isFinite_iff.mp h).ne

/-- **There are faithful functions.** -/
theorem isFaithful_exact : exact.IsFaithful := by
  refine ⟨fun x _ _ => brackets_near _, fun x hx => ?_, ?_, fun x y hx _ _ _ => ?_, fun y _ _ => ?_⟩
  · simp only [exact, isInf_of_isFinite hx, Bool.false_eq_true, if_false]
    exact brackets_near _
  · have hinf : (-infinity).isInf = true := by decide
    simp only [exact, hinf, if_true]
  · simp only [exact, isInf_of_isFinite hx, Bool.false_eq_true, if_false]
    exact brackets_near _
  · have hinf : infinity.isInf = true := by decide
    simp only [exact, hinf, if_true]

/-! ### Quotients of integers -/

theorem quotient_of_eq_some (e : Elementary) {a b : ℤ} (h : ofQuotient? a b = some x) :
    e.scalar.quotient a b = .ok x := by
  simp only [Scalar.quotient, h]

theorem quotient_of_eq_none (e : Elementary) {a b : ℤ} (h : ofQuotient? a b = none) :
    e.scalar.quotient a b = .error .quotientTooLarge := by
  simp only [Scalar.quotient, h]

/-- The double nearest to a quotient of natural numbers, if it is finite. -/
theorem ofQuotient?_natCast (m : ℕ) {n : ℕ} (hn : 0 < n) : ofQuotient? m n =
    if m < quotientBound * n then some (ofSignedUnitRatio false (m * unitsPerOne) n)
    else none := by
  have hsign : (decide ((m : ℤ) < 0) != decide ((n : ℤ) < 0)) = false := by
    rw [decide_eq_false (by omega), decide_eq_false (by omega)]
    rfl
  have hbound : m * unitsPerOne < overflowBound * n ↔ m < quotientBound * n := by
    rw [overflowBound_eq, Nat.mul_right_comm, Nat.mul_lt_mul_right unitsPerOne_pos]
  have hfinite := (isFinite_ofSignedUnitRatio false (m * unitsPerOne) hn).trans
    ((rounded_lt_unitsBound_iff hn).trans hbound)
  simp only [ofQuotient?, hsign, Int.natAbs_natCast, hfinite]

/-- The quotient of a number that is not negative by a positive one, as long as it is finite. -/
theorem exists_quotient (e : Elementary) {a b : ℤ} (ha : 0 ≤ a) (hb : 0 < b)
    (h : a < quotientBound * b) : ∃ x, e.scalar.quotient a b = .ok x ∧ x.isFinite = true ∧
      (b ≤ a → 1 ≤ x) ∧ (a ≤ b → 0 ≤ x ∧ x ≤ 1) ∧ ∀ k < 1024, a ≤ 2 ^ k * b → UpTo k x := by
  obtain ⟨m, rfl⟩ := Int.eq_ofNat_of_zero_le ha
  obtain ⟨n, rfl⟩ := Int.eq_ofNat_of_zero_le hb.le
  have hn : 0 < n := Int.natCast_pos.mp hb
  have hmn : m < quotientBound * n := by exact_mod_cast h
  have hquotient := ofQuotient?_natCast m hn
  rw [if_pos hmn] at hquotient
  have hnonneg : 0 ≤ ofSignedUnitRatio false (m * unitsPerOne) n :=
    ofSignedUnitRatio_nonneg hn (.inl rfl)
  refine ⟨_, quotient_of_eq_some e hquotient, ?_,
    fun h => one_le_ofSignedUnitRatio hn (Int.ofNat_le.mp h),
    fun h => ⟨hnonneg, ofSignedUnitRatio_le_one hn (Int.ofNat_le.mp h)⟩,
    fun k hk h => ⟨hnonneg, within_ofSignedUnitRatio _ hn (by omega) ?_⟩⟩
  · rw [isFinite_ofSignedUnitRatio _ _ hn, rounded_lt_unitsBound_iff hn, overflowBound_eq,
      Nat.mul_right_comm, Nat.mul_lt_mul_right unitsPerOne_pos]
    exact hmn
  · rw [Nat.pow_add, ← unitsPerOne_eq, Nat.mul_right_comm]
    exact Nat.mul_le_mul_right _ (by exact_mod_cast h)

/-- A quotient from the bound on is refused. -/
theorem quotient_eq_error (e : Elementary) {a b : ℤ} (ha : 0 ≤ a) (hb : 0 < b)
    (h : quotientBound * b ≤ a) : e.scalar.quotient a b = .error .quotientTooLarge := by
  obtain ⟨m, rfl⟩ := Int.eq_ofNat_of_zero_le ha
  obtain ⟨n, rfl⟩ := Int.eq_ofNat_of_zero_le hb.le
  have hmn : quotientBound * n ≤ m := by exact_mod_cast h
  have hquotient := ofQuotient?_natCast m (Int.natCast_pos.mp hb)
  rw [if_neg (Nat.not_lt.mpr hmn)] at hquotient
  exact quotient_of_eq_none e hquotient

/-- A quotient of positive numbers is positive, unless the divisor is beyond what one has in units
of the least double. -/
theorem quotient_pos (e : Elementary) {a b : ℤ} (ha : 0 < a) (hb : 0 < b) (hle : b ≤ unitsPerOne)
    (h : e.scalar.quotient a b = .ok x) : 0 < x := by
  obtain ⟨m, rfl⟩ := Int.eq_ofNat_of_zero_le ha.le
  obtain ⟨n, rfl⟩ := Int.eq_ofNat_of_zero_le hb.le
  have hm : 0 < m := Int.natCast_pos.mp ha
  have hn : 0 < n := Int.natCast_pos.mp hb
  have hquotient := ofQuotient?_natCast m hn
  split_ifs at hquotient with hmn
  · rw [quotient_of_eq_some e hquotient] at h
    obtain rfl := Except.ok.inj h
    have hone : 2 ^ 0 * n ≤ m * unitsPerOne := Nat.mul_le_mul hm (Int.ofNat_le.mp hle)
    have hrounded := two_pow_le_rounded hn hone
    have hbound := unitsBound_pos
    refine pos_iff.mpr ⟨isNaN_ofSignedUnitRatio _ _ hn, ?_⟩
    rw [units_ofSignedUnitRatio _ _ hn, signed]
    simp only [Bool.false_eq_true, if_false]
    omega
  · rw [quotient_of_eq_none e hquotient] at h
    cases h

/-! ### Values -/

/-- The logarithm of a positive number is not refused. -/
theorem logarithm_of_pos (e : Elementary) (hx : 0 < x) : e.logarithm x = .ok (e.log x) :=
  if_neg fun hle => not_lt_of_le hle hx

/-- The exponential of the opposite of a number that is at least zero is not refused. -/
theorem exponential_neg (e : Elementary) (hx : 0 ≤ x) : e.exponential (-x) = .ok (e.exp (-x)) := by
  refine if_neg fun h => ?_
  obtain ⟨hneg, hlt⟩ := Bool.and_eq_true_iff.mp h
  cases hfinite : x.isFinite with
  | false =>
      rw [eq_infinity_of_nonneg hx hfinite] at hneg
      exact absurd hneg (by decide)
  | true =>
      have hunits := (units_neg hfinite).2
      have hbound : 0 ≤ exponentialBound := by decide +kernel
      have := (lt_iff.mp (of_decide_eq_true hlt)).2.2
      have := (nonneg_iff.mp hbound).2
      have := (nonneg_iff.mp hx).2
      omega

variable {e : Elementary} (he : e.IsFaithful)
include he

/-- The logarithm of a finite number that is at least one, which is small. -/
theorem exists_logarithm (hx : x.isFinite = true) (hone : 1 ≤ x) :
    ∃ l, e.logarithm x = .ok l ∧ UpTo 10 l := by
  have hpos : 0 < x := Double.lt_of_lt_of_le Double.zero_lt_one hone
  have hbrackets := he.log x hx hpos
  have hreal : 1 ≤ toReal x := toReal_one ▸ toReal_mono hone
  have hlog : 0 ≤ Real.log (toReal x) := Real.log_nonneg hreal
  have hle : Real.log (toReal x) ≤ 2 ^ 10 := by
    have hpow : Real.log ((2 : ℝ) ^ 1024) = 1024 * Real.log 2 := by
      rw [Real.log_pow, Nat.cast_ofNat]
    have hmono := Real.log_le_log (by linarith) (toReal_lt hx).le
    have htwo := Real.log_le_sub_one_of_pos (show (0 : ℝ) < 2 by norm_num)
    rw [hpow] at hmono
    norm_num at htwo ⊢
    linarith
  exact ⟨e.log x, e.logarithm_of_pos hpos, hbrackets.nonneg hlog,
    hbrackets.within hlog (by decide) hle⟩

/-- The exponential of the opposite of a number that is at least zero lies between zero and one. -/
theorem exp_neg_ranges (hx : 0 ≤ x) : 0 ≤ e.exp (-x) ∧ e.exp (-x) ≤ 1 := by
  cases hfinite : x.isFinite with
  | false =>
      rw [eq_infinity_of_nonneg hx hfinite, he.exp_infinity]
      exact ⟨zero_nonneg, one_nonneg⟩
  | true =>
      obtain ⟨hneg, hunits⟩ := units_neg hfinite
      have hnonpos : units (-x) ≤ 0 := by
        have := (nonneg_iff.mp hx).2
        omega
      have hbrackets := he.exp (-x) hneg
      exact ⟨hbrackets.nonneg (Real.exp_pos _).le,
        hbrackets.le_one (Real.exp_le_one_iff.mpr (toReal_nonpos hnonpos))⟩

omit he in
theorem root_of_nonneg {n : ℕ} (hx : 0 ≤ x) : e.root x n = e.pow x (1 / Float.ofNat n) := by
  rw [root, isNaN_of_nonneg hx]
  rfl

/-- The root of a finite number that is at least zero, which is no larger than a power of two that
the number does not exceed. -/
theorem upTo_root {n : ℕ} (hn : (1 / Float.ofNat n).isFinite = true) (hpos : 0 < 1 / Float.ofNat n)
    (hle : 1 / Float.ofNat n ≤ 1) (hk : k < 1024) (hx : UpTo k x) : UpTo k (e.root x n) := by
  obtain ⟨hx, hxk⟩ := hx
  have hbrackets := he.pow x (1 / Float.ofNat n) hxk.1 hn hx hpos
  have hreal := toReal_nonneg hx
  have hexp : toReal (1 / Float.ofNat n) ≤ 1 := toReal_one ▸ toReal_mono hle
  have hpow := Real.rpow_nonneg hreal (toReal (1 / Float.ofNat n))
  have hbound : toReal x ^ toReal (1 / Float.ofNat n) ≤ 2 ^ k := by
    have hone : (1 : ℝ) ≤ 2 ^ k := one_le_pow₀ (by norm_num)
    calc toReal x ^ toReal (1 / Float.ofNat n)
        ≤ (2 ^ k) ^ toReal (1 / Float.ofNat n) :=
          Real.rpow_le_rpow hreal (toReal_le_two_pow hxk) (toReal_pos hpos).le
      _ ≤ (2 ^ k) ^ (1 : ℝ) := Real.rpow_le_rpow_of_exponent_le hone hexp
      _ = 2 ^ k := Real.rpow_one _
  rw [root_of_nonneg hx]
  exact ⟨hbrackets.nonneg hpow, hbrackets.within hpow hk hbound⟩

/-- The root of any number that is at least zero is at least zero. -/
theorem root_nonneg {n : ℕ} (hn : (1 / Float.ofNat n).isFinite = true)
    (hpos : 0 < 1 / Float.ofNat n) (hx : 0 ≤ x) : 0 ≤ e.root x n := by
  rw [root_of_nonneg hx]
  cases hfinite : x.isFinite with
  | true =>
      exact (he.pow x _ hfinite hn hx hpos).nonneg (Real.rpow_nonneg (toReal_nonneg hx) _)
  | false =>
      rw [eq_infinity_of_nonneg hx hfinite, he.pow_infinity _ hn hpos]
      decide

/-- The root of a finite number that is at least zero is finite: it is at most the number or one. -/
theorem isFinite_root {n : ℕ} (hn : (1 / Float.ofNat n).isFinite = true)
    (hpos : 0 < 1 / Float.ofNat n) (hle : 1 / Float.ofNat n ≤ 1) (hx : 0 ≤ x)
    (hfinite : x.isFinite = true) : (e.root x n).isFinite = true := by
  have hbrackets := he.pow x (1 / Float.ofNat n) hfinite hn hx hpos
  have hnonneg := root_nonneg he hn hpos hx
  rw [root_of_nonneg hx] at hnonneg ⊢
  by_cases hx1 : x ≤ 1
  · refine isFinite_of_le hnonneg (hbrackets.le_one ?_) isFinite_one
    exact Real.rpow_le_one (toReal_nonneg hx) (toReal_one ▸ toReal_mono hx1) (toReal_pos hpos).le
  · have hone : 1 ≤ toReal x := toReal_one ▸ toReal_mono
      (Double.le_of_lt (lt_of_not_le (isNaN_of_nonneg hx) isNaN_one hx1))
    refine isFinite_of_le hnonneg (hbrackets.le x hfinite ?_) hfinite
    exact Real.rpow_le_self_of_one_le hone (toReal_one ▸ toReal_mono hle)

end Elementary

end Corridor.Double
