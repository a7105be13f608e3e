import Corridor.Proofs.Number.Arithmetic

/-!
# The Order of Doubles

Doubles that are numbers compare as the integers that tell their values in units, an infinity
counting as one unit more than the largest double; the two zeros are equal. What is not a number
is neither less than anything nor equal to it.

## Main results

* `compare_eq_some_iff`: two numbers compare as their units, and other doubles do not compare.
* `lt_iff`, `le_iff`, `beq_iff`: what the comparisons of doubles say of their units.
-/

namespace Corridor.Double

open Float.Model Float.Model.UnpackedFloat

/-! ### Magnitudes and signs -/

/-- Two significands with the bits they drop compare as the magnitudes they make. -/
theorem compares_mul_two_pow {q r s t : ℕ} (hq : q < 2 ^ 53) (hr : r < 2 ^ 53)
    (hs : 2 ^ 52 ≤ q ∨ s = 0) (ht : 2 ^ 52 ≤ r ∨ t = 0) :
    ((compare ((s : ℤ) - 1074) ((t : ℤ) - 1074)).then (compare q r)).Compares
      (q * 2 ^ s) (r * 2 ^ t) := by
  have hless : ∀ {q r s t : ℕ}, q < 2 ^ 53 → r < 2 ^ 53 → (2 ^ 52 ≤ q ∨ s = 0) →
      (2 ^ 52 ≤ r ∨ t = 0) → s < t → q * 2 ^ s < r * 2 ^ t := by
    intro q r s t hq hr hs ht hst
    rw [← decode_add s hq hs, ← decode_add t hr ht, decode_lt_decode]
    omega
  rcases Nat.lt_trichotomy s t with h | rfl | h
  · rw [compare_lt_iff_lt.mpr (by omega : (s : ℤ) - 1074 < (t : ℤ) - 1074)]
    exact hless hq hr hs ht h
  · rw [compare_eq_iff_eq.mpr rfl, Ordering.eq_then]
    rcases Nat.lt_trichotomy q r with h | rfl | h
    · rw [compare_lt_iff_lt.mpr h]
      exact Nat.mul_lt_mul_of_pos_right h (Nat.two_pow_pos s)
    · rw [compare_eq_iff_eq.mpr rfl]
      exact rfl
    · rw [compare_gt_iff_gt.mpr h]
      exact Nat.mul_lt_mul_of_pos_right h (Nat.two_pow_pos s)
  · rw [compare_gt_iff_gt.mpr (by omega : (t : ℤ) - 1074 < (s : ℤ) - 1074)]
    exact hless hr hq ht hs h

/-- With a sign before both, magnitudes compare as they do without, or the other way round. -/
theorem compares_signed (negative : Bool) {o : Ordering} {u v : ℕ} (h : o.Compares u v) :
    (if negative then o.swap else o).Compares (signed negative u) (signed negative v) := by
  cases negative with
  | false => cases o <;> simpa [Ordering.Compares, signed] using h
  | true => cases o <;> simpa [Ordering.Compares, signed] using h

theorem signed_zero (negative : Bool) : signed negative 0 = 0 := by
  cases negative <;> rfl

/-- Two magnitudes that are not zero compare as their signed values. -/
theorem exists_compare_of_pos (a b : Bool) {u v : ℕ} (hu : Representable u)
    (hv : Representable v) (hu0 : 0 < u) (hv0 : 0 < v) :
    ∃ o, (unpacked a u).compare (unpacked b v) = some o ∧
      o.Compares (signed a u) (signed b v) := by
  obtain ⟨q, hq0, hqu, hs, hunp⟩ := unpacked_of_pos a hu hu0
  obtain ⟨r, hr0, hrv, ht, hunp'⟩ := unpacked_of_pos b hv hv0
  have hq : q < 2 ^ 53 := by
    have hlt := lt_two_pow_droppedBits u
    rw [Nat.pow_add] at hlt
    exact lt_of_mul_lt_mul_right (hqu.symm.trans_lt hlt) (Nat.zero_le _)
  have hr : r < 2 ^ 53 := by
    have hlt := lt_two_pow_droppedBits v
    rw [Nat.pow_add] at hlt
    exact lt_of_mul_lt_mul_right (hrv.symm.trans_lt hlt) (Nat.zero_le _)
  have hcompares := compares_mul_two_pow hq hr hs ht
  rw [← hqu, ← hrv] at hcompares
  rw [hunp, hunp']
  match a, b with
  | false, false => exact ⟨_, rfl, compares_signed false hcompares⟩
  | true, true => exact ⟨_, rfl, compares_signed true hcompares⟩
  | false, true =>
      refine ⟨.gt, rfl, ?_⟩
      simp only [Ordering.Compares, signed, Bool.false_eq_true, if_false, if_true]
      omega
  | true, false =>
      refine ⟨.lt, rfl, ?_⟩
      simp only [Ordering.Compares, signed, Bool.false_eq_true, if_false, if_true]
      omega

/-- Two magnitudes compare as their signed values, zeros being equal. -/
theorem exists_compare_unpacked (a b : Bool) {u v : ℕ} (hu : Representable u)
    (hv : Representable v) :
    ∃ o, (unpacked a u).compare (unpacked b v) = some o ∧
      o.Compares (signed a u) (signed b v) := by
  rcases Nat.eq_zero_or_pos u with rfl | hu0
  · rcases Nat.eq_zero_or_pos v with rfl | hv0
    · rw [unpacked_zero, unpacked_zero, signed_zero, signed_zero]
      exact ⟨.eq, rfl, rfl⟩
    · obtain ⟨r, hr0, -, -, hunp⟩ := unpacked_of_pos b hv hv0
      rw [unpacked_zero, hunp, signed_zero]
      cases b with
      | false => exact ⟨.lt, rfl, by simpa [Ordering.Compares, signed] using hv0⟩
      | true => exact ⟨.gt, rfl, by simpa [Ordering.Compares, signed] using hv0⟩
  · rcases Nat.eq_zero_or_pos v with rfl | hv0
    · obtain ⟨q, hq0, -, -, hunp⟩ := unpacked_of_pos a hu hu0
      rw [unpacked_zero, hunp, signed_zero]
      cases a with
      | false => exact ⟨.gt, rfl, by simpa [Ordering.Compares, signed] using hu0⟩
      | true => exact ⟨.lt, rfl, by simpa [Ordering.Compares, signed] using hu0⟩
    · exact exists_compare_of_pos a b hu hv hu0 hv0

/-! ### Infinities -/

/-- A magnitude below the bound compares with an infinity as with the bound. -/
theorem exists_compare_infinity (a b : Bool) {u : ℕ} (h : u < unitsBound) :
    ∃ o, (unpacked a u).compare (.infinity (signOf b)) = some o ∧
      o.Compares (signed a u) (signed b unitsBound) := by
  refine ⟨if b then .gt else .lt, ?_, ?_⟩
  · rw [unpacked]
    split_ifs <;> cases b <;> simp_all <;> rfl
  · generalize unitsBound = n at h
    cases a <;> cases b <;> simp [Ordering.Compares, signed] <;> omega

/-- An infinity compares with a magnitude below the bound as the bound does. -/
theorem exists_infinity_compare (a b : Bool) {v : ℕ} (h : v < unitsBound) :
    ∃ o, (UnpackedFloat.infinity (signOf a)).compare (unpacked b v) = some o ∧
      o.Compares (signed a unitsBound) (signed b v) := by
  refine ⟨if a then .lt else .gt, ?_, ?_⟩
  · rw [unpacked]
    split_ifs <;> cases a <;> simp_all <;> rfl
  · generalize unitsBound = n at h
    cases a <;> cases b <;> simp [Ordering.Compares, signed] <;> omega

/-- Infinities compare as their signs. -/
theorem exists_compare_infinities (a b : Bool) :
    ∃ o, (UnpackedFloat.infinity (signOf a)).compare (.infinity (signOf b)) = some o ∧
      o.Compares (signed a unitsBound) (signed b unitsBound) := by
  have hpos := unitsBound_pos
  match a, b with
  | false, false => exact ⟨.eq, rfl, rfl⟩
  | true, true => exact ⟨.eq, rfl, rfl⟩
  | false, true =>
      refine ⟨.gt, rfl, ?_⟩
      simp only [Ordering.Compares, signed, Bool.false_eq_true, if_false, if_true]
      omega
  | true, false =>
      refine ⟨.lt, rfl, ?_⟩
      simp only [Ordering.Compares, signed, Bool.false_eq_true, if_false, if_true]
      omega

/-! ### Doubles -/

variable {x y : Float}

/-- The magnitude of an infinity is the bound of those of finite doubles. -/
theorem magnitude_of_infinity (h : absBits x = infinityBits) : magnitude x = unitsBound := by
  rw [magnitude_eq_decode, h, decode_infinityBits]

/-- A number is finite or an infinity. -/
theorem absBits_cases (h : x.isNaN = false) :
    absBits x < infinityBits ∨ absBits x = infinityBits := by
  rw [← Bool.not_eq_true, isNaN_iff] at h
  omega

/-- **Numbers compare as their units.** -/
theorem exists_compare (hx : x.isNaN = false) (hy : y.isNaN = false) :
    ∃ o, x.toModel.unpack.compare y.toModel.unpack = some o ∧ o.Compares (units x) (units y) := by
  rw [units_eq_signed, units_eq_signed]
  rcases absBits_cases hx with hx | hx
  · rw [unpack_eq_unpacked hx]
    rcases absBits_cases hy with hy | hy
    · rw [unpack_eq_unpacked hy]
      exact exists_compare_unpacked _ _ (representable_magnitude x) (representable_magnitude y)
    · rw [unpack_eq_infinity hy, magnitude_of_infinity hy]
      exact exists_compare_infinity _ _ (magnitude_lt (isFinite_iff.mpr hx))
  · rw [unpack_eq_infinity hx, magnitude_of_infinity hx]
    rcases absBits_cases hy with hy | hy
    · rw [unpack_eq_unpacked hy]
      exact exists_infinity_compare _ _ (magnitude_lt (isFinite_iff.mpr hy))
    · rw [unpack_eq_infinity hy, magnitude_of_infinity hy]
      exact exists_compare_infinities _ _

/-- What is not a number compares with nothing. -/
theorem compare_of_isNaN (h : x.isNaN = true ∨ y.isNaN = true) :
    x.toModel.unpack.compare y.toModel.unpack = none := by
  rcases h with h | h
  · rw [unpack_eq_notANumber (isNaN_iff.mp h)]
    rfl
  · rw [unpack_eq_notANumber (isNaN_iff.mp h)]
    cases x.toModel.unpack <;> rfl

/-- **The comparison of doubles** is that of their units, if both are numbers. -/
theorem compare_eq_some_iff {o : Ordering} :
    x.toModel.unpack.compare y.toModel.unpack = some o ↔
      x.isNaN = false ∧ y.isNaN = false ∧ o.Compares (units x) (units y) := by
  by_cases h : x.isNaN = true ∨ y.isNaN = true
  · rw [compare_of_isNaN h]
    constructor
    · intro hnone
      cases hnone
    · rintro ⟨hx, hy, -⟩
      rw [hx, hy] at h
      simp at h
  · rw [not_or, Bool.not_eq_true, Bool.not_eq_true] at h
    obtain ⟨o', ho', hcompares'⟩ := exists_compare h.1 h.2
    rw [ho', Option.some.injEq]
    constructor
    · rintro rfl
      exact ⟨h.1, h.2, hcompares'⟩
    · rintro ⟨-, -, hcompares⟩
      exact hcompares'.inj hcompares

/-- A double is less than another if both are numbers and it is so in units. -/
theorem lt_iff : x < y ↔ x.isNaN = false ∧ y.isNaN = false ∧ units x < units y := by
  have hlt : x < y ↔ x.toModel.unpack.compare y.toModel.unpack = some .lt := by
    change decide ((x.toModel.unpack.compare y.toModel.unpack == some .lt) = true) = true ↔ _
    rw [decide_eq_true_iff, beq_iff_eq]
  rw [hlt, compare_eq_some_iff]
  rfl

/-- A double is at most another if both are numbers and it is so in units. -/
theorem le_iff : x ≤ y ↔ x.isNaN = false ∧ y.isNaN = false ∧ units x ≤ units y := by
  have hle : x ≤ y ↔ ∃ o : Ordering,
      x.toModel.unpack.compare y.toModel.unpack = some o ∧ o.isLE = true := by
    change decide (((x.toModel.unpack.compare y.toModel.unpack).any (·.isLE)) = true) = true ↔ _
    rw [decide_eq_true_iff, Option.any_eq_true]
  rw [hle]
  simp only [compare_eq_some_iff]
  constructor
  · rintro ⟨o, ⟨hx, hy, hcompares⟩, ho⟩
    refine ⟨hx, hy, ?_⟩
    cases o with
    | lt => exact hcompares.le
    | eq => exact hcompares.le
    | gt => cases ho
  · rintro ⟨hx, hy, hunits⟩
    rcases hunits.lt_or_eq with h | h
    · exact ⟨.lt, ⟨hx, hy, h⟩, rfl⟩
    · exact ⟨.eq, ⟨hx, hy, h⟩, rfl⟩

/-- Doubles are equal if both are numbers and they are so in units. -/
theorem beq_iff : (x == y) = true ↔ x.isNaN = false ∧ y.isNaN = false ∧ units x = units y := by
  have hbeq : (x == y) = true ↔ x.toModel.unpack.compare y.toModel.unpack = some .eq := by
    change (x.toModel.unpack.compare y.toModel.unpack == some .eq) = true ↔ _
    rw [beq_iff_eq]
  rw [hbeq, compare_eq_some_iff]
  rfl

end Corridor.Double
