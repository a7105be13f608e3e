import Corridor.Proofs.Number.Bounds
import Mathlib.Algebra.BigOperators.Ring.List
import Mathlib.Data.Nat.Size

/-!
# Totals of Bounded Lists

While a total is formed, its partials do not overlap: each is a multiple of a power of two that
exceeds all partials before it. Every carry is therefore close to a sum of the terms so far, and
stays far below the largest double if the terms and their number are bounded.

## Main results

* `sum_lt_of_separated`: numbers that do not overlap sum to less than the next power of two.
* `absorb_bounded`: absorbing a term keeps the partials apart and bounded.
* `ofList_bounded`: the total of a bounded list is its exact sum, rounded once.
-/

namespace Corridor.Total

open Double

/-! ### Rounding signed numbers -/

/-- The nearest double of a whole number of units, beyond the largest one as well. -/
def roundUnits (n : ℤ) : ℤ := signed (n < 0) (rounded n.natAbs 1)

theorem natAbs_roundUnits (n : ℤ) : (roundUnits n).natAbs = rounded n.natAbs 1 :=
  natAbs_signed _ _

/-- A number that is at most a power of two has a rounded one. -/
theorem roundUnits?_eq {n : ℤ} {k : ℕ} (hk : k < 1024 + unitExponent) (h : n.natAbs ≤ 2 ^ k) :
    roundUnits? n = some (roundUnits n) := by
  have hle : rounded n.natAbs 1 ≤ 2 ^ k := rounded_le_two_pow Nat.one_pos (by rwa [Nat.mul_one])
  have hlt := lt_of_le_of_lt hle (two_pow_lt_unitsBound hk)
  have hrounded : roundQuotient n.natAbs (2 ^ droppedBits n.natAbs) * 2 ^ droppedBits n.natAbs =
      rounded n.natAbs 1 := by rw [rounded, Nat.div_one, Nat.one_mul]
  unfold roundUnits?
  dsimp only
  rw [hrounded, ← unitsBound_eq, if_neg (by omega), roundUnits, signed]
  congr 1
  by_cases hneg : n < 0 <;> simp [hneg]

/-- The signed form of an error of a rounded magnitude. -/
theorem natAbs_sub_roundUnits (n : ℤ) :
    (n - roundUnits n).natAbs = ((n.natAbs : ℤ) - rounded n.natAbs 1).natAbs := by
  rw [roundUnits, signed]
  by_cases h : n < 0 <;> simp only [h, decide_true, decide_false, if_true, if_false,
    Bool.false_eq_true] <;> omega

/-- No double is nearer than the rounded number. -/
theorem natAbs_sub_roundUnits_le (n : ℤ) {y : ℤ} (hy : Representable y.natAbs) :
    (n - roundUnits n).natAbs ≤ (n - y).natAbs := by
  have hdist := rounded_dist_le (n := n.natAbs) hy
  have hzero := rounded_dist_le (n := n.natAbs) (y := 0) (Nat.dvd_zero _)
  rw [natAbs_sub_roundUnits]
  omega

/-- An error takes at most half of what the dropped bits count. -/
theorem two_mul_natAbs_sub_roundUnits_le (n : ℤ) :
    2 * (n - roundUnits n).natAbs ≤ 2 ^ droppedBits n.natAbs := by
  have h := rounded_error n.natAbs
  rw [natAbs_sub_roundUnits]
  omega

/-- Rounding keeps powers of two that divide a number. -/
theorem two_pow_dvd_roundUnits {n : ℤ} {g : ℕ} (h : (2 ^ g : ℤ) ∣ n) :
    (2 ^ g : ℤ) ∣ roundUnits n := by
  have hnat : 2 ^ g ∣ n.natAbs := by
    rw [← Int.natCast_dvd]
    exact_mod_cast h
  have hrounded : 2 ^ g ∣ rounded n.natAbs 1 := by
    rcases Nat.le_total g (droppedBits n.natAbs) with hg | hg
    · exact (Nat.pow_dvd_pow 2 hg).trans (two_pow_dvd_rounded n.natAbs)
    · rwa [rounded_of_representable ((Nat.pow_dvd_pow 2 hg).trans hnat)]
  rw [← natAbs_roundUnits] at hrounded
  have := Int.natCast_dvd.mpr hrounded
  exact_mod_cast this

/-! ### Numbers that do not overlap -/

/-- The second number is a multiple of a power of two that exceeds the first. -/
def Separated (p q : ℤ) : Prop := (2 ^ p.natAbs.size : ℤ) ∣ q

/-- Less than a power of two by at least a divisor of both. -/
theorem natAbs_add_lt {p q : ℤ} {g k : ℕ} (hp : p.natAbs < 2 ^ g) (hq : q.natAbs < 2 ^ k)
    (hdvd : (2 ^ g : ℤ) ∣ q) (hgk : g ≤ k) : (p + q).natAbs < 2 ^ k := by
  obtain ⟨a, ha⟩ : 2 ^ g ∣ q.natAbs := by
    rw [← Int.natCast_dvd]
    exact_mod_cast hdvd
  obtain ⟨b, hb⟩ := Nat.pow_dvd_pow 2 hgk
  have hab : a < b := by
    rw [ha, hb] at hq
    exact lt_of_mul_lt_mul_left hq (Nat.zero_le _)
  have hle : 2 ^ g * (a + 1) ≤ 2 ^ g * b := Nat.mul_le_mul_left _ hab
  rw [Nat.mul_add, Nat.mul_one, ← ha, ← hb] at hle
  omega

/-- Numbers that do not overlap sum to less than the next power of two. -/
theorem sum_lt_of_separated {ps : List ℤ} {k : ℕ} (hsep : ps.Pairwise Separated)
    (hlt : ∀ p ∈ ps, p.natAbs < 2 ^ k) : ps.sum.natAbs < 2 ^ k := by
  induction ps with
  | nil => simp
  | cons p ps ih =>
      rw [List.pairwise_cons] at hsep
      rw [List.sum_cons]
      exact natAbs_add_lt (Nat.lt_size_self _)
        (ih hsep.2 fun q hq => hlt q (List.mem_cons_of_mem p hq))
        (List.dvd_sum hsep.1) (Nat.size_le.mpr (hlt p List.mem_cons_self))

/-- What divides a number that is not zero is a power of two that does not exceed it. -/
theorem le_size_of_dvd {p : ℤ} {g : ℕ} (h0 : p ≠ 0) (h : (2 ^ g : ℤ) ∣ p) : g ≤ p.natAbs.size := by
  have hle : 2 ^ g ≤ p.natAbs := by
    refine Nat.le_of_dvd (Int.natAbs_pos.mpr h0) ?_
    rw [← Int.natCast_dvd]
    exact_mod_cast h
  exact ((Nat.pow_lt_pow_iff_right (by decide)).mp (lt_of_le_of_lt hle (Nat.lt_size_self _))).le

/-! ### Carrying a term through the partials -/

/-- What holds while `x` is carried to the partials `ps`: the errors left behind sum to `offset`
and are below `2 ^ g`, which divides all that is still to be added, and the sums of what was and
will be added are bounded. -/
structure Carries (b g : ℕ) (offset x : ℤ) (ps : List ℤ) : Prop where
  representable : Representable x.natAbs
  low_le : g ≤ b
  offset_lt : offset.natAbs < 2 ^ g
  dvd_carry : (2 ^ g : ℤ) ∣ x
  dvd_partial : ∀ p ∈ ps, (2 ^ g : ℤ) ∣ p
  separated : ps.Pairwise Separated
  total_le : (offset + x + ps.sum).natAbs ≤ 2 ^ b
  running_le : ∀ qs, qs <+: ps → (offset + x + qs.sum).natAbs ≤ 2 ^ (b + 4)

namespace Carries

variable {b g : ℕ} {offset x p : ℤ} {ps : List ℤ}

/-- The next sum is bounded. -/
theorem natAbs_add_le (h : Carries b g offset x (p :: ps)) : (x + p).natAbs ≤ 2 ^ (b + 5) := by
  have hrun := h.running_le [p] (List.prefix_append [p] ps)
  have hoffset := h.offset_lt
  have hpow : 2 ^ g ≤ 2 ^ b := Nat.pow_le_pow_right (by decide) h.low_le
  have hfour : 2 ^ (b + 4) = 16 * 2 ^ b := by ring
  have hfive : 2 ^ (b + 5) = 32 * 2 ^ b := by ring
  rw [List.sum_cons, List.sum_nil] at hrun
  omega

/-- The error of the next sum is a multiple of what divides its parts. -/
theorem dvd_error (h : Carries b g offset x (p :: ps)) :
    (2 ^ g : ℤ) ∣ x + p - roundUnits (x + p) := by
  have hsum := dvd_add h.dvd_carry (h.dvd_partial p List.mem_cons_self)
  exact dvd_sub hsum (two_pow_dvd_roundUnits hsum)

/-- An error that is not zero is below the bits that the rounded sum keeps, and far below the
bound. -/
theorem size_error_le (h : Carries b g offset x (p :: ps)) (h0 : x + p - roundUnits (x + p) ≠ 0) :
    (x + p - roundUnits (x + p)).natAbs.size ≤ droppedBits (x + p).natAbs ∧
      droppedBits (x + p).natAbs ≤ b := by
  have herror := two_mul_natAbs_sub_roundUnits_le (x + p)
  have hpos := Int.natAbs_pos.mpr h0
  have hdropped : droppedBits (x + p).natAbs ≠ 0 := by
    intro hzero
    rw [hzero] at herror
    omega
  have hle := (two_pow_le_of_droppedBits hdropped).trans h.natAbs_add_le
  have hexp := (Nat.pow_le_pow_iff_right (by decide)).mp hle
  exact ⟨Nat.size_le.mpr (by omega), by omega⟩

/-- A sum without an error is carried on. -/
theorem step_of_eq (h : Carries b g offset x (p :: ps)) (h0 : x + p - roundUnits (x + p) = 0) :
    Carries b g offset (roundUnits (x + p)) ps := by
  have hround : roundUnits (x + p) = x + p := by omega
  refine ⟨?_, h.low_le, h.offset_lt, ?_, fun q hq => h.dvd_partial q (List.mem_cons_of_mem p hq),
    (List.pairwise_cons.mp h.separated).2, ?_, fun qs hqs => ?_⟩
  · rw [natAbs_roundUnits]
    exact representable_rounded _ Nat.one_pos
  · rw [hround]
    exact dvd_add h.dvd_carry (h.dvd_partial p List.mem_cons_self)
  · have htotal := h.total_le
    rw [List.sum_cons, ← add_assoc] at htotal
    rwa [hround, ← add_assoc]
  · have hrun := h.running_le (p :: qs) ((List.prefix_cons_inj p).mpr hqs)
    rw [List.sum_cons, ← add_assoc] at hrun
    rwa [hround, ← add_assoc]

/-- A sum with an error leaves it behind. -/
theorem step_of_ne (h : Carries b g offset x (p :: ps)) (h0 : x + p - roundUnits (x + p) ≠ 0) :
    g ≤ (x + p - roundUnits (x + p)).natAbs.size ∧
      Carries b (x + p - roundUnits (x + p)).natAbs.size (offset + (x + p - roundUnits (x + p)))
        (roundUnits (x + p)) ps := by
  obtain ⟨hsize, hdropped⟩ := h.size_error_le h0
  have hdvd := h.dvd_error
  set low := x + p - roundUnits (x + p) with hlow
  have hg : g ≤ low.natAbs.size := le_size_of_dvd h0 hdvd
  have hlep : low.natAbs ≤ p.natAbs := by
    have hnear := natAbs_sub_roundUnits_le (x + p) h.representable
    rwa [← hlow, add_sub_cancel_left] at hnear
  refine ⟨hg, ?_, hsize.trans hdropped, ?_, ?_, fun q hq => ?_,
    (List.pairwise_cons.mp h.separated).2, ?_, fun qs hqs => ?_⟩
  · rw [natAbs_roundUnits]
    exact representable_rounded _ Nat.one_pos
  · exact natAbs_add_lt h.offset_lt (Nat.lt_size_self _) hdvd hg
  · have hhigh : (2 ^ low.natAbs.size : ℕ) ∣ (roundUnits (x + p)).natAbs := by
      rw [natAbs_roundUnits]
      exact (Nat.pow_dvd_pow 2 hsize).trans (two_pow_dvd_rounded _)
    have := Int.natCast_dvd.mpr hhigh
    exact_mod_cast this
  · have hsep := (List.pairwise_cons.mp h.separated).1 q hq
    exact (pow_dvd_pow 2 (Nat.size_le_size hlep)).trans hsep
  · have htotal := h.total_le
    rw [List.sum_cons] at htotal
    rwa [show offset + low + roundUnits (x + p) + ps.sum = offset + x + (p + ps.sum) by
      rw [hlow]; ring]
  · have hrun := h.running_le (p :: qs) ((List.prefix_cons_inj p).mpr hqs)
    rw [List.sum_cons] at hrun
    rwa [show offset + low + roundUnits (x + p) + qs.sum = offset + x + (p + qs.sum) by
      rw [hlow]; ring]

end Carries

/-- Partials that do not overlap and are bounded. -/
structure Bounded (b : ℕ) (ps : List ℤ) : Prop where
  separated : ps.Pairwise Separated
  natAbs_le : ∀ p ∈ ps, p.natAbs ≤ 2 ^ (b + 1)

/-- **Absorbing a term** leaves partials that do not overlap and are bounded, and adds the term
to their sum. -/
theorem absorb_bounded {b g : ℕ} {offset x : ℤ} {ps : List ℤ} (hb : b + 5 < 1024 + unitExponent)
    (h : Carries b g offset x ps) :
    ∃ rs, absorb x ps = some rs ∧ Bounded b rs ∧ (∀ r ∈ rs, (2 ^ g : ℤ) ∣ r) ∧
      rs.sum = x + ps.sum := by
  induction ps generalizing g offset x with
  | nil =>
      by_cases h0 : x = 0
      · subst h0
        exact ⟨[], rfl, ⟨List.Pairwise.nil, by simp⟩, by simp, rfl⟩
      · refine ⟨[x], by rw [absorb, if_neg h0], ⟨List.pairwise_singleton _ _, ?_⟩, ?_, by simp⟩
        · intro r hr
          rw [List.mem_singleton] at hr
          subst hr
          have htotal := h.total_le
          have hoffset := h.offset_lt
          have hpow : 2 ^ g ≤ 2 ^ b := Nat.pow_le_pow_right (by decide) h.low_le
          rw [List.sum_nil, add_zero] at htotal
          rw [Nat.pow_succ]
          omega
        · intro r hr
          rw [List.mem_singleton] at hr
          exact hr ▸ h.dvd_carry
  | cons p ps ih =>
      have hround := roundUnits?_eq (k := b + 5) hb h.natAbs_add_le
      by_cases h0 : x + p - roundUnits (x + p) = 0
      · obtain ⟨rs, hrs, hbound, hdvd, hsum⟩ := ih (h.step_of_eq h0)
        refine ⟨rs, ?_, hbound, hdvd, ?_⟩
        · simp [absorb, hround, hrs, h0]
        · rw [hsum, List.sum_cons]
          omega
      · obtain ⟨hg, hstep⟩ := h.step_of_ne h0
        obtain ⟨rs, hrs, hbound, hdvd, hsum⟩ := ih hstep
        obtain ⟨hsize, hdropped⟩ := h.size_error_le h0
        have herror := h.dvd_error
        set low := x + p - roundUnits (x + p) with hlow
        refine ⟨low :: rs, ?_, ⟨?_, ?_⟩, ?_, ?_⟩
        · simp [absorb, hround, hrs, ← hlow, h0]
        · exact List.pairwise_cons.mpr ⟨fun r hr => hdvd r hr, hbound.separated⟩
        · rw [List.forall_mem_cons]
          refine ⟨?_, hbound.natAbs_le⟩
          exact (Nat.lt_size_self _).le.trans
            (Nat.pow_le_pow_right (by decide) (by omega))
        · rw [List.forall_mem_cons]
          exact ⟨herror, fun r hr => (pow_dvd_pow 2 hg).trans (hdvd r hr)⟩
        · rw [List.sum_cons, hsum, List.sum_cons, hlow]
          ring

/-! ### Totals -/

/-- The sums of a bounded list and of all its beginnings. -/
theorem natAbs_sum_units_le {k m : ℕ} {xs : List Float} (hxs : ∀ x ∈ xs, Within k x)
    (hlen : xs.length ≤ 2 ^ m) : (xs.map units).sum.natAbs ≤ 2 ^ (k + m) := by
  have hle : (xs.map units).sum.natAbs ≤ xs.length * 2 ^ k := by
    clear hlen
    induction xs with
    | nil => simp
    | cons x xs ih =>
        have hx := (hxs x List.mem_cons_self).2
        rw [← natAbs_units] at hx
        have htail := ih fun y hy => hxs y (List.mem_cons_of_mem x hy)
        rw [List.map_cons, List.sum_cons, List.length_cons, Nat.succ_mul]
        omega
  calc (xs.map units).sum.natAbs ≤ xs.length * 2 ^ k := hle
    _ ≤ 2 ^ m * 2 ^ k := Nat.mul_le_mul_right _ hlen
    _ = 2 ^ (k + m) := by rw [Nat.add_comm, Nat.pow_add]

/-- One more term of a bounded list keeps the partials bounded. -/
theorem step_bounded {b : ℕ} {ps : List ℤ} {x : Float} (hb : b + 5 < 1024 + unitExponent)
    (hps : Bounded b ps) (hx : Within b x) (hsum : (units x + ps.sum).natAbs ≤ 2 ^ b) :
    ∃ qs, step ps x = some qs ∧ Bounded b qs ∧ qs.sum = units x + ps.sum := by
  have hunits := hx.2
  rw [← natAbs_units] at hunits
  have hcarries : Carries b 0 0 (units x) ps := by
    refine ⟨?_, Nat.zero_le b, by decide, by simp, by simp, hps.separated, by rwa [zero_add],
      fun qs hqs => ?_⟩
    · rw [natAbs_units]
      exact representable_magnitude x
    · have hlt := sum_lt_of_separated (k := b + 2) (hps.separated.sublist hqs.sublist) fun q hq =>
        lt_of_le_of_lt (hps.natAbs_le q (hqs.subset hq))
          (Nat.pow_lt_pow_right (by decide) (by omega))
      have htwo : 2 ^ (b + 2) = 4 * 2 ^ b := by ring
      have hfour : 2 ^ (b + 4) = 16 * 2 ^ b := by ring
      omega
  obtain ⟨qs, hqs, hbound, -, hqsum⟩ := absorb_bounded hb hcarries
  exact ⟨qs, by rw [step, if_pos hx.1, hqs], hbound, hqsum⟩

/-- All terms of a list with bounded running sums are absorbed. -/
theorem foldlM_bounded {b : ℕ} {xs : List Float} {ps : List ℤ} (hb : b + 5 < 1024 + unitExponent)
    (hps : Bounded b ps) (hxs : ∀ x ∈ xs, Within b x)
    (hsum : ∀ ys, ys <+: xs → (ps.sum + (ys.map units).sum).natAbs ≤ 2 ^ b) :
    ∃ qs, xs.foldlM step ps = some qs := by
  induction xs generalizing ps with
  | nil => exact ⟨ps, rfl⟩
  | cons x xs ih =>
      have hfirst := hsum [x] (List.prefix_append [x] xs)
      simp only [List.map_cons, List.map_nil, List.sum_cons, List.sum_nil, add_zero] at hfirst
      rw [add_comm] at hfirst
      obtain ⟨qs, hqs, hbound, hqsum⟩ := step_bounded hb hps (hxs x List.mem_cons_self) hfirst
      obtain ⟨rs, hrs⟩ := ih hbound (fun y hy => hxs y (List.mem_cons_of_mem x hy)) (by
        intro ys hys
        have hrun := hsum (x :: ys) ((List.prefix_cons_inj x).mpr hys)
        rw [List.map_cons, List.sum_cons] at hrun
        rwa [hqsum, add_comm (units x), add_assoc])
      exact ⟨rs, by rw [List.foldlM_cons, hqs]; exact hrs⟩

/-- The exact sum of finite terms. -/
theorem exactUnits_of_finite {xs : List Float} (hxs : ∀ x ∈ xs, x.isFinite = true) :
    exactUnits xs = (xs.map units).sum := by
  have hfold : ∀ n : ℤ, xs.foldl (fun n x => if x.isFinite then n + units x else n) n =
      n + (xs.map units).sum := by
    induction xs with
    | nil => simp
    | cons x xs ih =>
        intro n
        rw [List.foldl_cons, if_pos (hxs x List.mem_cons_self),
          ih fun y hy => hxs y (List.mem_cons_of_mem x hy), List.map_cons, List.sum_cons, add_assoc]
  rw [exactUnits, hfold, zero_add]

/-- A total of finite terms whose partials all have doubles is the exact sum, rounded once. -/
theorem ofList_of_finite {xs : List Float} {ps : List ℤ} (hxs : ∀ x ∈ xs, x.isFinite = true)
    (hps : xs.foldlM step [] = some ps) : ofList xs = .ok (ofUnits (xs.map units).sum) := by
  have hinf : ∀ x ∈ xs, x.isInf = false := fun x hx => by
    have hbits := isFinite_iff.mp (hxs x hx)
    rw [← Bool.not_eq_true, isInf_iff]
    omega
  have hnan : ∀ x ∈ xs, x.isNaN = false := fun x hx => by
    have hbits := isFinite_iff.mp (hxs x hx)
    rw [← Bool.not_eq_true, isNaN_iff]
    omega
  have hup : (xs.any fun x => x.isInf && !isNegative x) = false :=
    List.any_eq_false.mpr fun x hx => by simp [hinf x hx]
  have hdown : (xs.any fun x => x.isInf && isNegative x) = false :=
    List.any_eq_false.mpr fun x hx => by simp [hinf x hx]
  have hundefined : xs.any Float.isNaN = false :=
    List.any_eq_false.mpr fun x hx => Bool.eq_false_iff.mp (hnan x hx)
  rw [ofList, hps]
  simp only [hup, hdown, hundefined, exactUnits_of_finite hxs]
  rfl

/-- **Totals of bounded lists**: the total of bounded terms, of which there are not too many, is
their exact sum, rounded once. -/
theorem ofList_bounded {k m : ℕ} {xs : List Float} (hxs : ∀ x ∈ xs, Within k x)
    (hlen : xs.length ≤ 2 ^ m) (hkm : k + m + 5 < 1024 + unitExponent) :
    ofList xs = .ok (ofUnits (xs.map units).sum) ∧ Within (k + m) (ofUnits (xs.map units).sum) := by
  have hnone : Bounded (k + m) [] := ⟨List.Pairwise.nil, by simp⟩
  obtain ⟨ps, hps⟩ := foldlM_bounded (by omega) hnone (fun x hx => (hxs x hx).mono (by omega)) (by
    intro ys hys
    rw [List.sum_nil, zero_add]
    exact natAbs_sum_units_le (fun y hy => hxs y (hys.subset hy)) (hys.length_le.trans hlen))
  exact ⟨ofList_of_finite (fun x hx => (hxs x hx).1) hps,
    within_ofUnits (by omega) (natAbs_sum_units_le hxs hlen)⟩

end Corridor.Total
