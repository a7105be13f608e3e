import Corridor.Proofs.Number.Sign
import Corridor.Proofs.Number.Total

/-!
# Totals in Range

While a total is formed, each running sum has a finite double, but the total itself is rounded from
the exact sum of all terms. It is finite all the same. An error of half a unit in the last place is
left behind by an even significand only, so each partial is a multiple of twice a power of two that
exceeds the partial before it; and numbers so far apart sum to less than what is rounded to the
infinity, if each of them is.

## Main results

* `two_pow_dvd_roundUnits_of_error`: what an error tells of the sum that left it.
* `natAbs_sum_lt_overflowBound`: sums of numbers that are far apart.
* `isFinite_of_ofList`: the total of finite terms is finite, if they have one.
* `ofList_nonneg`: the total of terms that are at least zero is at least zero.
-/

namespace Corridor.Total

open Double

/-! ### Errors of rounding -/

/-- Where the error is half of the last place, the significand is even. -/
theorem two_dvd_roundQuotient {num den : ℕ} (hden : 0 < den)
    (h : 2 * num = 2 * (roundQuotient num den * den) + den ∨
      2 * (roundQuotient num den * den) = 2 * num + den) :
    2 ∣ roundQuotient num den := by
  have hdiv := Nat.div_add_mod num den
  have hmod := Nat.mod_lt num hden
  have htie : 2 * (num % den) = den := by
    rw [Nat.mul_comm] at hdiv
    rcases roundQuotient_eq_or num den with ⟨hq, -⟩ | ⟨hq, -⟩
    · rw [hq] at h
      omega
    · rw [hq, Nat.add_mul, Nat.one_mul] at h
      omega
  unfold roundQuotient
  dsimp only
  rw [if_neg (by omega), if_neg (by omega)]
  omega

/-- A rounded magnitude is a multiple of twice a power of two that exceeds its error. -/
theorem two_pow_dvd_rounded_of_error {n low : ℕ} (hlow : low = ((n : ℤ) - rounded n 1).natAbs)
    (h0 : low ≠ 0) : 2 ^ (low.size + 1) ∣ rounded n 1 := by
  obtain ⟨hdown, hup⟩ := rounded_error n
  have hround : rounded n 1 = roundQuotient n (2 ^ droppedBits n) * 2 ^ droppedBits n := by
    rw [rounded, Nat.div_one, Nat.one_mul]
  have hhalf : 2 * low ≤ 2 ^ droppedBits n := by omega
  rcases hhalf.lt_or_eq with hlt | heq
  · refine (Nat.pow_dvd_pow 2 ?_).trans (two_pow_dvd_rounded n)
    cases hd : droppedBits n with
    | zero =>
        rw [hd, Nat.pow_zero] at hlt
        omega
    | succ d =>
        rw [hd, Nat.pow_succ'] at hlt
        exact Nat.succ_le_succ (Nat.size_le.mpr (Nat.lt_of_mul_lt_mul_left hlt))
  · have hsize : low.size ≤ droppedBits n := Nat.size_le.mpr (by omega)
    have heven : 2 ∣ roundQuotient n (2 ^ droppedBits n) := by
      refine two_dvd_roundQuotient (Nat.two_pow_pos _) ?_
      rw [← hround]
      omega
    refine (Nat.pow_dvd_pow 2 (Nat.succ_le_succ hsize)).trans ?_
    rw [Nat.pow_succ', hround]
    exact Nat.mul_dvd_mul_right heven _

/-- **What an error tells**: the rounded sum is a multiple of twice a power of two that exceeds
it. -/
theorem two_pow_dvd_roundUnits_of_error {n : ℤ} (h0 : n - roundUnits n ≠ 0) :
    (2 ^ ((n - roundUnits n).natAbs.size + 1) : ℤ) ∣ roundUnits n := by
  have hdvd := two_pow_dvd_rounded_of_error (natAbs_sub_roundUnits n) (Int.natAbs_ne_zero.mpr h0)
  rw [← natAbs_roundUnits] at hdvd
  have := Int.natCast_dvd.mpr hdvd
  exact_mod_cast this

/-- The numbers that have a rounded one. -/
theorem roundUnits?_eq_ite (n : ℤ) :
    roundUnits? n = if rounded n.natAbs 1 < unitsBound then some (roundUnits n) else none := by
  have hround : roundQuotient n.natAbs (2 ^ droppedBits n.natAbs) * 2 ^ droppedBits n.natAbs =
      rounded n.natAbs 1 := by rw [rounded, Nat.div_one, Nat.one_mul]
  unfold roundUnits?
  dsimp only
  by_cases hlt : rounded n.natAbs 1 < unitsBound
  · rw [hround, ← unitsBound_eq, if_neg (by omega), if_pos hlt, roundUnits, signed]
    congr 1
    by_cases hneg : n < 0 <;> simp [hneg]
  · rw [hround, ← unitsBound_eq, if_pos (by omega), if_neg hlt]

/-- A rounded sum that has a double is below the overflow bound. -/
theorem of_roundUnits?_eq_some {n m : ℤ} (h : roundUnits? n = some m) :
    m = roundUnits n ∧ Representable m.natAbs ∧ m.natAbs < overflowBound := by
  rw [roundUnits?_eq_ite] at h
  split_ifs at h with hlt
  obtain rfl := Option.some.inj h
  have hrep := representable_rounded n.natAbs Nat.one_pos
  rw [natAbs_roundUnits]
  exact ⟨rfl, hrep, lt_overflowBound hrep hlt⟩

/-! ### Numbers that are far apart -/

/-- The second number is a multiple of twice a power of two that exceeds the first. -/
def Apart (p q : ℤ) : Prop := (2 ^ (p.natAbs.size + 1) : ℤ) ∣ q

/-- Less than half of what divides a number adds nothing that reaches a limit of 54 ones. -/
theorem add_lt_limit {s j limit u v : ℕ} (hlimit : 2 * limit = (2 ^ 54 - 1) * 2 ^ s)
    (hu : 2 * u < 2 ^ j) (hdvd : 2 ^ j ∣ v) (h0 : v ≠ 0) (hv : v < limit) : u + v < limit := by
  have hdouble : 2 ^ (j + 1) ∣ 2 * v := by
    rw [Nat.pow_succ']
    exact Nat.mul_dvd_mul_left 2 hdvd
  rcases Nat.lt_or_ge j s with hj | hj
  · -- the limit is a multiple of what divides twice the number
    have hroom := add_le_of_dvd (b := 2 * limit) hdouble
      (hlimit ▸ (Nat.pow_dvd_pow 2 hj).mul_left _) (by clear hlimit; omega)
    rw [Nat.pow_succ'] at hroom
    clear hlimit
    omega
  · -- the next power of two is, and it exceeds the limit by no more than half of the divisor
    have hnext : 2 * limit + 2 ^ s = 2 ^ (54 + s) := by
      rw [hlimit, Nat.pow_add, ← Nat.succ_mul]
      rfl
    clear hlimit
    generalize hpower : 2 ^ (54 + s) = top at hnext
    have hpos := Nat.two_pow_pos s
    have hsj : 2 ^ s ≤ 2 ^ j := Nat.pow_le_pow_right Nat.two_pos hj
    have hle : 2 ^ (j + 1) ≤ 2 * v := Nat.le_of_dvd (by omega) hdouble
    have hexp : j + 1 ≤ 54 + s := by
      refine ((Nat.pow_lt_pow_iff_right Nat.one_lt_two).mp ?_).le
      rw [hpower]
      omega
    have hroom := add_le_of_dvd hdouble (hpower ▸ Nat.pow_dvd_pow 2 hexp) (by omega)
    rw [Nat.pow_succ'] at hroom
    omega

/-- Two numbers below the overflow bound that are far apart sum to one. -/
theorem natAbs_add_lt_overflowBound {p q : ℤ} (hp : p.natAbs < overflowBound)
    (hq : q.natAbs < overflowBound) (hpq : Apart p q) : (p + q).natAbs < overflowBound := by
  rcases eq_or_ne q 0 with rfl | h0
  · rwa [add_zero]
  have hhalf : 2 * p.natAbs < 2 ^ (p.natAbs.size + 1) := by
    rw [Nat.pow_succ']
    exact Nat.mul_lt_mul_of_pos_left (Nat.lt_size_self _) Nat.two_pos
  have hdvd : 2 ^ (p.natAbs.size + 1) ∣ q.natAbs := by
    rw [← Int.natCast_dvd]
    exact_mod_cast hpq
  have hsum := add_lt_limit two_mul_overflowBound hhalf hdvd (Int.natAbs_ne_zero.mpr h0) hq
  exact (Int.natAbs_add_le p q).trans_lt hsum

/-- **Numbers that are far apart** sum to less than the overflow bound, if each of them is. -/
theorem natAbs_sum_lt_overflowBound {ps : List ℤ} (hapart : ps.Pairwise Apart)
    (hlt : ∀ p ∈ ps, p.natAbs < overflowBound) : ps.sum.natAbs < overflowBound := by
  induction ps with
  | nil => exact lt_overflowBound (Nat.dvd_zero _) unitsBound_pos
  | cons p ps ih =>
      rw [List.pairwise_cons] at hapart
      rw [List.forall_mem_cons] at hlt
      rw [List.sum_cons]
      exact natAbs_add_lt_overflowBound hlt.1 (ih hapart.2 hlt.2) (List.dvd_sum hapart.1)

/-! ### Partials -/

/-- What holds of partials, all of them multiples of `2 ^ g`: they are far apart, and each has a
finite double next to it. -/
structure InRange (g : ℕ) (ps : List ℤ) : Prop where
  apart : ps.Pairwise Apart
  lt : ∀ p ∈ ps, p.natAbs < overflowBound
  dvd : ∀ p ∈ ps, (2 ^ g : ℤ) ∣ p

/-- An error that is left behind is far from the partials after the one that it was left by. -/
theorem InRange.of_error {g : ℕ} {x p : ℤ} {ps : List ℤ} (h : InRange g (p :: ps))
    (hx : Representable x.natAbs) :
    (x + p - roundUnits (x + p)).natAbs ≤ p.natAbs ∧
      InRange ((x + p - roundUnits (x + p)).natAbs.size + 1) ps := by
  have hle : (x + p - roundUnits (x + p)).natAbs ≤ p.natAbs := by
    have hnear := natAbs_sub_roundUnits_le (x + p) hx
    rwa [add_sub_cancel_left] at hnear
  have hapart := List.pairwise_cons.mp h.apart
  refine ⟨hle, hapart.2, fun q hq => h.lt q (List.mem_cons_of_mem p hq), fun q hq => ?_⟩
  exact (pow_dvd_pow 2 (Nat.succ_le_succ (Nat.size_le_size hle))).trans (hapart.1 q hq)

/-- **Absorbing a term** keeps partials in range, and adds the term to their sum. -/
theorem absorb_inRange {g : ℕ} {x : ℤ} {ps rs : List ℤ} (hx : Representable x.natAbs)
    (hxlt : x.natAbs < overflowBound) (hdvd : (2 ^ g : ℤ) ∣ x) (hps : InRange g ps)
    (h : absorb x ps = some rs) : InRange g rs ∧ rs.sum = x + ps.sum := by
  induction ps generalizing g x rs with
  | nil =>
      rw [absorb] at h
      split_ifs at h with h0
      · obtain rfl := Option.some.inj h
        exact ⟨⟨List.Pairwise.nil, by simp, by simp⟩, by rw [h0, zero_add]⟩
      · obtain rfl := Option.some.inj h
        refine ⟨⟨List.pairwise_singleton _ _, ?_, ?_⟩, by simp⟩
        · exact List.forall_mem_singleton.mpr hxlt
        · exact List.forall_mem_singleton.mpr hdvd
  | cons p ps ih =>
      rw [absorb, Option.bind_eq_bind, Option.bind_eq_some_iff] at h
      obtain ⟨high, hhigh, h⟩ := h
      rw [Option.bind_eq_bind, Option.bind_eq_some_iff] at h
      obtain ⟨rest, hrest, h⟩ := h
      obtain rfl := Option.some.inj h
      obtain ⟨rfl, hrep, hlt⟩ := of_roundUnits?_eq_some hhigh
      obtain ⟨hle, herror⟩ := hps.of_error hx
      have hsum := dvd_add hdvd (hps.dvd p List.mem_cons_self)
      have hlow := dvd_sub hsum (two_pow_dvd_roundUnits hsum)
      set low := x + p - roundUnits (x + p) with hdef
      by_cases h0 : low = 0
      · have htail : InRange g ps := ⟨(List.pairwise_cons.mp hps.apart).2,
          fun q hq => hps.lt q (List.mem_cons_of_mem p hq),
          fun q hq => hps.dvd q (List.mem_cons_of_mem p hq)⟩
        obtain ⟨hrange, htotal⟩ := ih hrep hlt (two_pow_dvd_roundUnits hsum) htail hrest
        rw [if_pos h0]
        refine ⟨hrange, ?_⟩
        rw [htotal, List.sum_cons]
        omega
      · obtain ⟨hrange, htotal⟩ := ih hrep hlt (two_pow_dvd_roundUnits_of_error h0) herror hrest
        rw [if_neg h0]
        refine ⟨⟨List.pairwise_cons.mpr ⟨hrange.dvd, hrange.apart⟩, ?_, ?_⟩, ?_⟩
        · exact List.forall_mem_cons.mpr
            ⟨hle.trans_lt (hps.lt p List.mem_cons_self), hrange.lt⟩
        · refine List.forall_mem_cons.mpr ⟨hlow, fun r hr => ?_⟩
          have hg := (le_size_of_dvd h0 hlow).trans (Nat.le_succ _)
          exact (pow_dvd_pow 2 hg).trans (hrange.dvd r hr)
        · rw [List.sum_cons, htotal, List.sum_cons]
          omega

/-- All terms that are absorbed leave partials in range, and add up. -/
theorem foldlM_inRange {xs : List Float} {ps rs : List ℤ} (hps : InRange 0 ps)
    (hxs : ∀ x ∈ xs, x.isFinite = true) (h : xs.foldlM step ps = some rs) :
    InRange 0 rs ∧ rs.sum = ps.sum + (xs.map units).sum := by
  induction xs generalizing ps with
  | nil =>
      obtain rfl := Option.some.inj h
      exact ⟨hps, (add_zero _).symm⟩
  | cons x xs ih =>
      rw [List.forall_mem_cons] at hxs
      rw [List.foldlM_cons, Option.bind_eq_bind, Option.bind_eq_some_iff] at h
      obtain ⟨qs, hqs, h⟩ := h
      rw [step, if_pos hxs.1] at hqs
      have hrep : Representable (units x).natAbs := by
        rw [natAbs_units]
        exact representable_magnitude x
      have hlt : (units x).natAbs < unitsBound := by
        rw [natAbs_units]
        exact magnitude_lt hxs.1
      obtain ⟨hrange, hsum⟩ := absorb_inRange hrep (lt_overflowBound hrep hlt) (by simp) hps hqs
      obtain ⟨hrange, htotal⟩ := ih hrange hxs.2 h
      refine ⟨hrange, ?_⟩
      rw [htotal, hsum, List.map_cons, List.sum_cons]
      ring

/-! ### Totals -/

/-- **The total of finite terms** is their exact sum, rounded once, and finite. -/
theorem isFinite_of_ofList {xs : List Float} {t : Float} (hxs : ∀ x ∈ xs, x.isFinite = true)
    (h : ofList xs = .ok t) : t.isFinite = true ∧ t = ofUnits (xs.map units).sum := by
  cases hps : xs.foldlM step [] with
  | none =>
      rw [ofList, hps] at h
      cases h
  | some ps =>
      rw [ofList_of_finite hxs hps] at h
      obtain rfl := Except.ok.inj h
      refine ⟨?_, rfl⟩
      have hnone : InRange 0 [] := ⟨List.Pairwise.nil, by simp, by simp⟩
      obtain ⟨hrange, hsum⟩ := foldlM_inRange hnone hxs hps
      have hlt := natAbs_sum_lt_overflowBound hrange.apart hrange.lt
      rw [hsum, List.sum_nil, zero_add] at hlt
      refine (isFinite_ofSignedUnitRatio _ _ Nat.one_pos).mpr ?_
      rwa [rounded_lt_unitsBound_iff Nat.one_pos, Nat.mul_one]

/-- The total of numbers that are at least zero is at least zero. -/
theorem ofList_nonneg {xs : List Float} {t : Float} (hxs : ∀ x ∈ xs, 0 ≤ x)
    (h : ofList xs = .ok t) : 0 ≤ t := by
  have hnan : xs.any Float.isNaN = false :=
    List.any_eq_false.mpr fun x hx => Bool.eq_false_iff.mp (isNaN_of_nonneg (hxs x hx))
  have hdown : (xs.any fun x => x.isInf && isNegative x) = false := by
    refine List.any_eq_false.mpr fun x hx hinf => ?_
    obtain ⟨hinf, hneg⟩ := Bool.and_eq_true_iff.mp hinf
    have hfinite : x.isFinite = false := by
      rw [← Bool.not_eq_true, isFinite_iff, isInf_iff.mp hinf]
      exact lt_irrefl _
    rw [eq_infinity_of_nonneg (hxs x hx) hfinite] at hneg
    exact absurd hneg (by decide)
  have hsum : 0 ≤ exactUnits xs := by
    refine List.foldlRecOn (motive := fun n : ℤ => 0 ≤ n) xs _ le_rfl fun n hn x hx => ?_
    have hunits := (nonneg_iff.mp (hxs x hx)).2
    split_ifs
    · exact add_nonneg hn hunits
    · exact hn
  cases hps : xs.foldlM step [] with
  | none =>
      rw [ofList, hps] at h
      cases h
  | some ps =>
      rw [ofList, hps] at h
      simp only [hdown, hnan, Bool.and_false, Bool.false_eq_true, if_false] at h
      split_ifs at h
      · obtain rfl := Except.ok.inj h
        decide
      · obtain rfl := Except.ok.inj h
        exact ofSignedUnitRatio_nonneg Nat.one_pos (.inl (decide_eq_false (not_lt.mpr hsum)))

/-- One more than a finite number that is at least zero is finite, and at least one. -/
theorem add_one_ranges {x : Float} (h0 : 0 ≤ x) (hx : x.isFinite = true) :
    (x + 1).isFinite = true ∧ 1 ≤ x + 1 := by
  have hunits := (nonneg_iff.mp h0).2
  have hsum : x + 1 = ofUnits (units x + units 1) :=
    add_eq_ofUnits hx isFinite_one (.inr (magnitude_pos_of_pos Double.zero_lt_one))
  have hlt : (units 1 + units x).natAbs < overflowBound := by
    rw [units_one]
    have hsize : (unitsPerOne : ℤ).natAbs.size = unitExponent + 1 := by
      rw [Int.natAbs_natCast, unitsPerOne_eq, Nat.size_pow]
    have hone : unitsPerOne < overflowBound := by
      rw [overflowBound_eq]
      exact lt_mul_of_one_lt_left unitsPerOne_pos one_lt_quotientBound
    rcases Nat.lt_or_ge (droppedBits (magnitude x)) (unitExponent + 2) with hsmall | hlarge
    · have hlt : magnitude x < 2 ^ 54 * unitsPerOne := by
        rw [unitsPerOne_eq, ← Nat.pow_add]
        exact (lt_two_pow_droppedBits _).trans_le (Nat.pow_le_pow_right Nat.two_pos (by omega))
      have hbound : 2 ^ 55 * unitsPerOne ≤ overflowBound := by
        rw [overflowBound_eq]
        exact Nat.mul_le_mul_right _ (two_pow_le_quotientBound (by decide))
      have hpos := unitsPerOne_pos
      rw [units_of_nonneg hunits]
      norm_num at hlt hbound
      omega
    · -- where this many bits are dropped, one is far from the number
      refine natAbs_add_lt_overflowBound hone ?_ ?_
      · rw [natAbs_units]
        exact lt_overflowBound (representable_magnitude x) (magnitude_lt hx)
      · have hdvd := (Nat.pow_dvd_pow 2 hlarge).trans (representable_magnitude x)
        rw [Apart, hsize, units_of_nonneg hunits]
        rwa [← Int.natCast_dvd_natCast, Nat.cast_pow, Nat.cast_ofNat] at hdvd
  rw [hsum]
  constructor
  · rw [ofUnits, ofUnitRatio, isFinite_ofSignedUnitRatio _ _ Nat.one_pos,
      rounded_lt_unitsBound_iff Nat.one_pos, Nat.mul_one, add_comm]
    exact hlt
  · exact le_ofUnits isFinite_one (by omega)

end Corridor.Total
