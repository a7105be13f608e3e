import Corridor.Number.Double
import Mathlib.Tactic.Ring
import Mathlib.Tactic.Linarith
import Mathlib.Data.Nat.Log

/-!
# Rounding to Doubles

Magnitudes are whole numbers of units, so rounding to a double is a function on natural
numbers: drop as many low bits as a double does not keep, and take the nearest multiple of
what is left. `Double.rounded num den` is that function on a quotient, without the bound of
the largest double.

## Main results

* `rounded_mul_right`: rounding depends on the quotient alone.
* `rounded_mul_two_pow`, `representable_mul_two_pow_iff`: of whole numbers, not on the unit.
* `rounded_le_two_pow`, `two_pow_le_rounded`, `rounded_mono`: rounding keeps the order, and
  the powers of two.
* `representable_rounded`, `rounded_of_representable`: the rounded magnitudes are exactly those
  that rounding leaves alone.
* `rounded_dist_le`: no representable magnitude is nearer than the rounded one.
-/

namespace Corridor.Double

/-! ### Rounding to a whole number -/

/-- Rounding goes up or down by less than one. -/
theorem roundQuotient_eq_or (num den : ℕ) :
    roundQuotient num den = num / den ∧ 2 * (num % den) ≤ den ∨
      roundQuotient num den = num / den + 1 ∧ den ≤ 2 * (num % den) := by
  unfold roundQuotient
  dsimp only
  split_ifs with h₁ h₂
  · exact .inl ⟨rfl, by omega⟩
  · exact .inr ⟨rfl, by omega⟩
  · rcases Nat.mod_two_eq_zero_or_one (num / den) with h | h
    · exact .inl ⟨by omega, by omega⟩
    · exact .inr ⟨by omega, by omega⟩

/-- The rounded quotient is nearest: it is off by at most one half. -/
theorem roundQuotient_near (num : ℕ) {den : ℕ} (hden : 0 < den) :
    2 * (roundQuotient num den * den) ≤ 2 * num + den ∧
      2 * num ≤ 2 * (roundQuotient num den * den) + den := by
  have h := Nat.div_add_mod num den
  have hlt := Nat.mod_lt num hden
  rw [Nat.mul_comm] at h
  rcases roundQuotient_eq_or num den with ⟨hq, hr⟩ | ⟨hq, hr⟩ <;> rw [hq]
  · omega
  · rw [Nat.add_mul, Nat.one_mul]
    omega

/-- An upper bound of a quotient by a whole number bounds the rounded quotient. -/
theorem roundQuotient_le {num den q : ℕ} (hden : 0 < den) (h : num ≤ q * den) :
    roundQuotient num den ≤ q := by
  obtain ⟨hlow, -⟩ := roundQuotient_near num hden
  by_contra hc
  have hq : (q + 1) * den ≤ roundQuotient num den * den := Nat.mul_le_mul_right _ (by omega)
  rw [Nat.add_mul, Nat.one_mul] at hq
  have heq : num = q * den := by omega
  subst heq
  rcases roundQuotient_eq_or (q * den) den with ⟨hr, -⟩ | ⟨-, hr⟩
  · rw [Nat.mul_div_cancel _ hden] at hr
    omega
  · rw [Nat.mul_mod_left] at hr
    omega

/-- A lower bound of a quotient by a whole number bounds the rounded quotient. -/
theorem le_roundQuotient {num den q : ℕ} (hden : 0 < den) (h : q * den ≤ num) :
    q ≤ roundQuotient num den := by
  have hq : q ≤ num / den := (Nat.le_div_iff_mul_le hden).mpr h
  rcases roundQuotient_eq_or num den with ⟨hr, -⟩ | ⟨hr, -⟩ <;> omega

/-- A whole number is rounded to itself. -/
theorem roundQuotient_mul_self {den : ℕ} (hden : 0 < den) (q : ℕ) :
    roundQuotient (q * den) den = q :=
  le_antisymm (roundQuotient_le hden le_rfl) (le_roundQuotient hden le_rfl)

/-- Rounding depends on the quotient alone. -/
theorem roundQuotient_mul_right (num den : ℕ) {c : ℕ} (hc : 0 < c) :
    roundQuotient (num * c) (den * c) = roundQuotient num den := by
  have h : ∀ a b : ℕ, a * c < b * c ↔ a < b := fun a b => Nat.mul_lt_mul_right hc
  unfold roundQuotient
  dsimp only
  rw [Nat.mul_div_mul_right _ _ hc, Nat.mul_mod_mul_right, ← Nat.mul_assoc]
  simp only [h]

/-- Rounding to a whole number keeps the order. -/
theorem roundQuotient_mono {num num' den : ℕ} (h : num ≤ num') :
    roundQuotient num den ≤ roundQuotient num' den := by
  rcases Nat.eq_zero_or_pos den with rfl | hden
  · simp [roundQuotient]
    split_ifs <;> omega
  have hdiv : num / den ≤ num' / den := Nat.div_le_div_right h
  rcases hdiv.lt_or_eq with hlt | heq
  · rcases roundQuotient_eq_or num den with ⟨h₁, -⟩ | ⟨h₁, -⟩ <;>
      rcases roundQuotient_eq_or num' den with ⟨h₂, -⟩ | ⟨h₂, -⟩ <;> omega
  · have hmod : num % den ≤ num' % den := by
      have h₁ := Nat.div_add_mod num den
      have h₂ := Nat.div_add_mod num' den
      rw [heq] at h₁
      omega
    unfold roundQuotient
    dsimp only
    rw [heq]
    split_ifs <;> omega

/-! ### Dropped bits -/

/-- A magnitude in the range of a number of dropped bits. -/
theorem droppedBits_eq {n s : ℕ} (hlow : 2 ^ (52 + s) ≤ n ∨ s = 0) (hhigh : n < 2 ^ (53 + s)) :
    droppedBits n = s := by
  rw [droppedBits]
  rcases Nat.eq_zero_or_pos n with rfl | hn
  · rcases hlow with h | rfl
    · exact absurd h (Nat.not_le.mpr (Nat.two_pow_pos _))
    · simp
  have hlt : n.log2 < 53 + s := (Nat.log2_lt hn.ne').mpr hhigh
  rcases hlow with h | rfl
  · have := (Nat.le_log2 hn.ne').mpr h
    omega
  · omega

/-- What is left of a magnitude has at most 53 bits. -/
theorem lt_two_pow_droppedBits (n : ℕ) : n < 2 ^ (53 + droppedBits n) := by
  have h : n.log2 + 1 ≤ 53 + droppedBits n := by
    rw [droppedBits]
    omega
  exact lt_of_lt_of_le Nat.lt_log2_self (Nat.pow_le_pow_right (by decide) h)

/-- Bits are dropped only of what has more than 53 of them. -/
theorem two_pow_le_of_droppedBits {n : ℕ} (h : droppedBits n ≠ 0) :
    2 ^ (52 + droppedBits n) ≤ n := by
  have hn : n ≠ 0 := by
    rintro rfl
    exact h (by decide)
  have hlog : 52 + droppedBits n = n.log2 := by
    rw [droppedBits] at h ⊢
    omega
  rw [hlog]
  exact Nat.log2_self_le hn

/-- The larger of two magnitudes drops no fewer bits. -/
theorem droppedBits_mono {m n : ℕ} (h : m ≤ n) : droppedBits m ≤ droppedBits n := by
  by_contra hc
  have hm := two_pow_le_of_droppedBits (n := m) (by omega)
  have hn := lt_two_pow_droppedBits n
  have hpow : 2 ^ (53 + droppedBits n) ≤ 2 ^ (52 + droppedBits m) :=
    Nat.pow_le_pow_right (by decide) (by omega)
  omega

/-- Below a power of two, few bits are dropped. -/
theorem droppedBits_le {n s : ℕ} (h : n < 2 ^ (53 + s)) : droppedBits n ≤ s := by
  by_contra hgt
  have hlow := two_pow_le_of_droppedBits (n := n) (by omega)
  have hle : 2 ^ (53 + s) ≤ 2 ^ (52 + droppedBits n) :=
    Nat.pow_le_pow_right Nat.two_pos (by omega)
  omega

/-- A product with a power of two drops as many bits more, if any are dropped. -/
theorem droppedBits_mul_two_pow_of_ne {n : ℕ} (h : droppedBits n ≠ 0) (k : ℕ) :
    droppedBits (n * 2 ^ k) = droppedBits n + k := by
  refine droppedBits_eq (.inl ?_) ?_
  · rw [← Nat.add_assoc, Nat.pow_add]
    exact Nat.mul_le_mul_right _ (two_pow_le_of_droppedBits h)
  · rw [← Nat.add_assoc, Nat.pow_add]
    exact Nat.mul_lt_mul_of_pos_right (lt_two_pow_droppedBits n) (Nat.two_pow_pos k)

/-- A product with a power of two drops as many bits more. -/
theorem droppedBits_mul_two_pow {q : ℕ} (s : ℕ) (hq : q < 2 ^ 53) (hs : 2 ^ 52 ≤ q ∨ s = 0) :
    droppedBits (q * 2 ^ s) = s := by
  refine droppedBits_eq ?_ ?_
  · rcases hs with h | h
    · rw [Nat.pow_add]
      exact .inl (Nat.mul_le_mul_right _ h)
    · exact .inr h
  · rw [Nat.pow_add]
    exact Nat.mul_lt_mul_of_pos_right hq (Nat.two_pow_pos s)

/-! ### Rounding to a double -/

/-- The magnitude of the double nearest to `num / den` units, an exact half going to the even
neighbour, as if there were no largest double. -/
def rounded (num den : ℕ) : ℕ :=
  roundQuotient num (den * 2 ^ droppedBits (num / den)) * 2 ^ droppedBits (num / den)

/-- Magnitudes that lose nothing with the bits they drop. -/
def Representable (u : ℕ) : Prop := 2 ^ droppedBits u ∣ u

/-- The significand of a rounded magnitude: at most 53 bits or the next power of two, and at
least 53 bits where bits are dropped. -/
theorem roundQuotient_significand (num : ℕ) {den : ℕ} (hden : 0 < den) :
    roundQuotient num (den * 2 ^ droppedBits (num / den)) ≤ 2 ^ 53 ∧
      (2 ^ 52 ≤ roundQuotient num (den * 2 ^ droppedBits (num / den)) ∨
        droppedBits (num / den) = 0) := by
  set s := droppedBits (num / den) with hs
  have hpos : 0 < den * 2 ^ s := Nat.mul_pos hden (Nat.two_pow_pos s)
  constructor
  · refine roundQuotient_le hpos ?_
    have h : num < 2 ^ (53 + s) * den := (Nat.div_lt_iff_lt_mul hden).mp (lt_two_pow_droppedBits _)
    rw [Nat.pow_add] at h
    calc num ≤ 2 ^ 53 * 2 ^ s * den := h.le
      _ = 2 ^ 53 * (den * 2 ^ s) := by ring
  · rcases Nat.eq_zero_or_pos s with h0 | h0
    · exact .inr h0
    refine .inl (le_roundQuotient hpos ?_)
    have h : 2 ^ (52 + s) * den ≤ num :=
      (Nat.le_div_iff_mul_le hden).mp (two_pow_le_of_droppedBits (by omega))
    rw [Nat.pow_add] at h
    calc 2 ^ 52 * (den * 2 ^ s) = 2 ^ 52 * 2 ^ s * den := by ring
      _ ≤ num := h

/-- A significand of at most 53 bits, or the next power of two, makes a representable
magnitude. -/
theorem representable_mul_two_pow {q : ℕ} (s : ℕ) (hq : q ≤ 2 ^ 53) (hs : 2 ^ 52 ≤ q ∨ s = 0) :
    Representable (q * 2 ^ s) := by
  rw [Representable]
  rcases hq.lt_or_eq with h | rfl
  · rw [droppedBits_mul_two_pow s h hs]
    exact Nat.dvd_mul_left _ _
  · have h : (2 : ℕ) ^ 53 * 2 ^ s = 2 ^ 52 * 2 ^ (s + 1) := by ring
    rw [h, droppedBits_mul_two_pow (s + 1) (by decide) (.inl le_rfl)]
    exact Nat.dvd_mul_left _ _

/-- Numbers of at most 53 bits are representable. -/
theorem representable_of_le {n : ℕ} (h : n ≤ 2 ^ 53) : Representable n := by
  simpa using representable_mul_two_pow 0 h (.inr rfl)

/-- Powers of two are representable. -/
theorem representable_two_pow (k : ℕ) : Representable (2 ^ k) :=
  Nat.pow_dvd_pow 2 (droppedBits_le (Nat.pow_lt_pow_right Nat.one_lt_two (by omega)))

/-- Whether bits are lost does not depend on the unit. -/
theorem representable_mul_two_pow_iff (n k : ℕ) : Representable (n * 2 ^ k) ↔ Representable n := by
  rw [Representable, Representable]
  by_cases h0 : droppedBits n = 0
  · have hlt := lt_two_pow_droppedBits n
    rw [h0] at hlt
    have hle : droppedBits (n * 2 ^ k) ≤ k := by
      refine droppedBits_le ?_
      rw [Nat.pow_add]
      exact Nat.mul_lt_mul_of_pos_right hlt (Nat.two_pow_pos k)
    refine iff_of_true ?_ (by simp [h0])
    exact (Nat.pow_dvd_pow 2 hle).trans (Nat.dvd_mul_left _ _)
  · rw [droppedBits_mul_two_pow_of_ne h0, Nat.pow_add,
      Nat.mul_dvd_mul_iff_right (Nat.two_pow_pos k)]

/-- Rounding gives a representable magnitude. -/
theorem representable_rounded (num : ℕ) {den : ℕ} (hden : 0 < den) :
    Representable (rounded num den) :=
  let ⟨hle, hor⟩ := roundQuotient_significand num hden
  representable_mul_two_pow _ hle hor

/-- A representable magnitude is rounded to itself. -/
theorem rounded_of_representable {u : ℕ} (h : Representable u) : rounded u 1 = u := by
  rw [rounded, Nat.div_one, Nat.one_mul]
  have hq := Nat.div_mul_cancel h
  calc roundQuotient u (2 ^ droppedBits u) * 2 ^ droppedBits u
      = roundQuotient (u / 2 ^ droppedBits u * 2 ^ droppedBits u) (2 ^ droppedBits u) *
          2 ^ droppedBits u := by rw [hq]
    _ = u := by rw [roundQuotient_mul_self (Nat.two_pow_pos _), hq]

/-- Rounding depends on the quotient alone. -/
theorem rounded_mul_right (num den : ℕ) {c : ℕ} (hc : 0 < c) :
    rounded (num * c) (den * c) = rounded num den := by
  simp only [rounded]
  rw [Nat.mul_div_mul_right _ _ hc, Nat.mul_right_comm, roundQuotient_mul_right _ _ hc]

/-- Rounding a whole number does not depend on the unit. -/
theorem rounded_mul_two_pow (n k : ℕ) : rounded (n * 2 ^ k) 1 = rounded n 1 * 2 ^ k := by
  by_cases h : Representable n
  · rw [rounded_of_representable h,
      rounded_of_representable ((representable_mul_two_pow_iff n k).mpr h)]
  · have hbits : droppedBits n ≠ 0 := fun h0 => h (by simp [Representable, h0])
    rw [rounded, rounded, Nat.div_one, Nat.div_one, Nat.one_mul, Nat.one_mul,
      droppedBits_mul_two_pow_of_ne hbits, Nat.pow_add,
      roundQuotient_mul_right _ _ (Nat.two_pow_pos k), Nat.mul_assoc]

/-- A power of two above a quotient is above the rounded quotient. -/
theorem rounded_le_two_pow {num den : ℕ} (hden : 0 < den) {k : ℕ} (h : num ≤ 2 ^ k * den) :
    rounded num den ≤ 2 ^ k := by
  rw [rounded]
  set s := droppedBits (num / den) with hs
  have hpos : 0 < den * 2 ^ s := Nat.mul_pos hden (Nat.two_pow_pos s)
  have hsk : s ≤ k := by
    rcases Nat.eq_zero_or_pos s with h0 | h0
    · omega
    have hlow : 2 ^ (52 + s) ≤ num / den := two_pow_le_of_droppedBits (by omega)
    have hhigh : num / den ≤ 2 ^ k := Nat.div_le_of_le_mul (by rwa [Nat.mul_comm])
    have := (Nat.pow_le_pow_iff_right (by decide : 1 < 2)).mp (hlow.trans hhigh)
    omega
  have hk : 2 ^ k = 2 ^ (k - s) * 2 ^ s := by rw [← Nat.pow_add, Nat.sub_add_cancel hsk]
  rw [hk]
  refine Nat.mul_le_mul_right _ (roundQuotient_le hpos ?_)
  calc num ≤ 2 ^ k * den := h
    _ = 2 ^ (k - s) * (den * 2 ^ s) := by rw [hk]; ring

/-- A power of two below a quotient is below the rounded quotient. -/
theorem two_pow_le_rounded {num den : ℕ} (hden : 0 < den) {k : ℕ} (h : 2 ^ k * den ≤ num) :
    2 ^ k ≤ rounded num den := by
  rw [rounded]
  set s := droppedBits (num / den) with hs
  have hpos : 0 < den * 2 ^ s := Nat.mul_pos hden (Nat.two_pow_pos s)
  rcases Nat.lt_or_ge k s with hks | hsk
  · obtain ⟨-, hor⟩ := roundQuotient_significand num hden
    rw [← hs] at hor
    have hq := hor.resolve_right (by omega)
    calc 2 ^ k ≤ 2 ^ s := Nat.pow_le_pow_right (by decide) hks.le
      _ ≤ _ := Nat.le_mul_of_pos_left _ (by omega)
  · have hk : 2 ^ k = 2 ^ (k - s) * 2 ^ s := by rw [← Nat.pow_add, Nat.sub_add_cancel hsk]
    rw [hk]
    refine Nat.mul_le_mul_right _ (le_roundQuotient hpos ?_)
    calc 2 ^ (k - s) * (den * 2 ^ s) = 2 ^ k * den := by rw [hk]; ring
      _ ≤ num := h

/-- Rounding keeps the order. -/
theorem rounded_mono {num num' den : ℕ} (hden : 0 < den) (h : num ≤ num') :
    rounded num den ≤ rounded num' den := by
  have hbits := droppedBits_mono (Nat.div_le_div_right (c := den) h)
  rcases hbits.lt_or_eq with hlt | heq
  · -- a power of two separates the two quotients
    have hlow : num ≤ 2 ^ (53 + droppedBits (num / den)) * den :=
      ((Nat.div_lt_iff_lt_mul hden).mp (lt_two_pow_droppedBits _)).le
    have hhigh : 2 ^ (52 + droppedBits (num' / den)) * den ≤ num' :=
      (Nat.le_div_iff_mul_le hden).mp (two_pow_le_of_droppedBits (by omega))
    calc rounded num den ≤ 2 ^ (53 + droppedBits (num / den)) := rounded_le_two_pow hden hlow
      _ ≤ 2 ^ (52 + droppedBits (num' / den)) := Nat.pow_le_pow_right (by decide) (by omega)
      _ ≤ rounded num' den := two_pow_le_rounded hden hhigh
  · rw [rounded, heq]
    exact Nat.mul_le_mul_right _ (roundQuotient_mono h)

/-- Only zero is rounded to zero, unless a fraction of a unit is lost. -/
theorem rounded_pos {n : ℕ} (h : 0 < n) : 0 < rounded n 1 := by
  have hone : 2 ^ 0 * 1 ≤ n := by omega
  have := two_pow_le_rounded Nat.one_pos hone
  omega

/-- Below one unit, rounding is to a whole number. -/
theorem rounded_of_lt {num den : ℕ} (h : num < den) : rounded num den = roundQuotient num den := by
  have hbits : droppedBits 0 = 0 := rfl
  rw [rounded, Nat.div_eq_of_lt h, hbits, Nat.pow_zero, Nat.mul_one, Nat.mul_one]

/-- A quotient is rounded to zero up to one half of a unit. -/
theorem rounded_eq_zero_iff {num den : ℕ} (hden : 0 < den) :
    rounded num den = 0 ↔ 2 * num ≤ den := by
  rcases Nat.lt_or_ge num den with hlt | hle
  · rw [rounded_of_lt hlt, roundQuotient, Nat.div_eq_of_lt hlt, Nat.mod_eq_of_lt hlt]
    split_ifs with hdown hup
    · exact iff_of_true rfl hdown.le
    · exact iff_of_false id hup.not_ge
    · exact iff_of_true rfl (Nat.le_of_not_lt hup)
  · have hone : 2 ^ 0 ≤ rounded num den := two_pow_le_rounded hden (by omega)
    omega

/-- A rounded magnitude is a multiple of what the dropped bits count. -/
theorem two_pow_dvd_rounded (n : ℕ) : 2 ^ droppedBits n ∣ rounded n 1 := by
  rw [rounded, Nat.div_one]
  exact Nat.dvd_mul_left _ _

/-- The error of rounding is at most half of what the lowest bit that is kept counts. -/
theorem rounded_error (n : ℕ) :
    2 * rounded n 1 ≤ 2 * n + 2 ^ droppedBits n ∧ 2 * n ≤ 2 * rounded n 1 + 2 ^ droppedBits n := by
  rw [rounded, Nat.div_one, Nat.one_mul]
  exact roundQuotient_near n (Nat.two_pow_pos _)

/-- No multiple of what the dropped bits count is nearer than the rounded magnitude. -/
theorem rounded_dist_le_of_dvd {n z : ℕ} (hz : 2 ^ droppedBits n ∣ z) :
    ((n : ℤ) - rounded n 1).natAbs ≤ ((n : ℤ) - z).natAbs := by
  obtain ⟨hlow, hhigh⟩ := rounded_error n
  obtain ⟨a, ha⟩ := two_pow_dvd_rounded n
  obtain ⟨b, rfl⟩ := hz
  rcases Nat.lt_trichotomy a b with hab | rfl | hab
  · have hab : a + 1 ≤ b := by omega
    have := Nat.mul_le_mul_left (2 ^ droppedBits n) hab
    rw [Nat.mul_add, Nat.mul_one] at this
    omega
  · omega
  · have hba : b + 1 ≤ a := by omega
    have := Nat.mul_le_mul_left (2 ^ droppedBits n) hba
    rw [Nat.mul_add, Nat.mul_one] at this
    omega

/-- No representable magnitude is nearer than the rounded one. -/
theorem rounded_dist_le {n y : ℕ} (hy : Representable y) :
    ((n : ℤ) - rounded n 1).natAbs ≤ ((n : ℤ) - y).natAbs := by
  rcases Nat.le_total (droppedBits n) (droppedBits y) with h | h
  · exact rounded_dist_le_of_dvd ((Nat.pow_dvd_pow 2 h).trans hy)
  rcases h.lt_or_eq with hlt | heq
  · -- the least magnitude that drops as many bits lies between `y` and `n`
    have hn := two_pow_le_of_droppedBits (n := n) (by omega)
    have hy' := lt_two_pow_droppedBits y
    have hpow : 2 ^ (53 + droppedBits y) ≤ 2 ^ (52 + droppedBits n) :=
      Nat.pow_le_pow_right (by decide) (by omega)
    have hz := rounded_dist_le_of_dvd (n := n)
      (Nat.pow_dvd_pow 2 (show droppedBits n ≤ 52 + droppedBits n by omega))
    omega
  · exact rounded_dist_le_of_dvd (heq ▸ hy)

end Corridor.Double
