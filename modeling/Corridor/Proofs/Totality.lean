import Corridor.Proofs.Number.Sign
import Corridor.Proofs.Tracklet

/-!
# When Segmentation Fails

The rate of turn is a quotient by the time that two legs take, and has no value where neither takes
any. The test of a ping does not ask for it there: a leg that takes no time has the
infinite speed, which lies below no limit, be the limit infinite or not a number. So the test has
an answer for all limits, and only the comparison of times is left to fail. Segmentation fails
where a zoned time meets a naive one, and nowhere else.

## Main results

* `Leg.absBits_duration_eq_zero_iff`: where a leg takes no time.
* `Motion.turnRate_eq_error_iff`: where the rate of turn has no value.
* `Motion.isPlausible_of_microsTo_eq_zero`: no limits approve of a leg that takes no time.
* `Tracklet.segment_eq_error_iff`: where segmentation fails, and how.
* `Tracklet.segment_fails_iff_mixed`: all of this for any limits.
-/

namespace Corridor

open Double

/-! ### Times that do not compare -/

namespace Ping

variable {ps : List Ping}

/-- One ping has a zoned time and another a naive one. -/
def MixedTimes (ps : List Ping) : Prop :=
  ∃ p ∈ ps, ∃ q ∈ ps, p.TimedAs true ∧ q.TimedAs false

/-- Known times are uniform if they are not mixed. -/
theorem uniformTimes_of_not_mixedTimes (h : ¬MixedTimes ps) : UniformTimes ps := by
  by_cases hzoned : ∃ p ∈ ps, p.TimedAs true
  · obtain ⟨p, hp, hpz⟩ := hzoned
    refine ⟨true, fun q hq t ht => ?_⟩
    cases hz : t.isZoned with
    | true => rfl
    | false => exact absurd ⟨p, hp, q, hq, hpz, t, ht, hz⟩ h
  · refine ⟨false, fun q hq t ht => ?_⟩
    cases hz : t.isZoned with
    | true => exact absurd ⟨q, hq, t, ht, hz⟩ hzoned
    | false => rfl

/-- Mixed times do not compare. -/
theorem comparable_of_mixedTimes (h : MixedTimes ps) : comparable ps = false := by
  obtain ⟨p, hp, q, hq, ⟨s, hs, hsz⟩, t, ht, htz⟩ := h
  match ps with
  | [] => cases hp
  | [r] =>
      obtain rfl := List.mem_singleton.mp hp
      obtain rfl := List.mem_singleton.mp hq
      obtain rfl := Option.some.inj (hs.symm.trans ht)
      rw [hsz] at htz
      cases htz
  | _ :: _ :: _ =>
      simp only [comparable]
      rw [Bool.or_eq_false_iff, List.all_eq_false, List.all_eq_false]
      exact ⟨⟨q, hq, by simp [ht, htz]⟩, p, hp, by simp [hs, hsz]⟩

theorem MixedTimes.filter_isTimed (h : MixedTimes ps) : MixedTimes (ps.filter isTimed) := by
  obtain ⟨p, hp, q, hq, ⟨s, hs, hsz⟩, t, ht, htz⟩ := h
  refine ⟨p, ?_, q, ?_, ⟨s, hs, hsz⟩, t, ht, htz⟩
  · exact List.mem_filter.mpr ⟨hp, Option.isSome_of_eq_some hs⟩
  · exact List.mem_filter.mpr ⟨hq, Option.isSome_of_eq_some ht⟩

end Ping

/-! ### Legs that take no time -/

section

variable {zoned : Bool} {l : Leg} (hearlier : l.earlier.TimedAs zoned)
  (hlater : l.later.TimedAs zoned)
include hearlier hlater

namespace Leg

variable {d : Float} (hd : l.duration = .ok d)
include hd

theorem magnitude_duration : magnitude d = min
    (rounded ((l.earlier.microsTo l.later).natAbs * unitsPerOne) 1000000) unitsBound := by
  obtain rfl := Except.ok.inj ((duration_eq hearlier hlater).symm.trans hd)
  rw [ofRatio_natCast, magnitude_ofSignedUnitRatio_eq _ _ (by decide)]

/-- Time is counted in microseconds, of which a second has less than `2 ^ 20`. -/
theorem two_pow_le_magnitude (hne : l.earlier.microsTo l.later ≠ 0) :
    2 ^ (unitExponent - 20) ≤ magnitude d := by
  rw [magnitude_duration hearlier hlater hd]
  refine le_min (two_pow_le_rounded (by decide) ?_) ?_
  · calc 2 ^ (unitExponent - 20) * 1000000 ≤ 2 ^ (unitExponent - 20) * 2 ^ 20 :=
          Nat.mul_le_mul_left _ (by decide)
      _ = unitsPerOne := by rw [← Nat.pow_add, unitsPerOne_eq, Nat.sub_add_cancel (by decide)]
      _ ≤ (l.earlier.microsTo l.later).natAbs * unitsPerOne :=
          Nat.le_mul_of_pos_left _ (Int.natAbs_pos.mpr hne)
  · exact Nat.pow_le_pow_right Nat.two_pos (by omega)

/-- A leg takes no time if there is no microsecond between its pings, and only then: a microsecond
is not rounded to nothing. -/
theorem absBits_duration_eq_zero_iff : absBits d = 0 ↔ l.earlier.microsTo l.later = 0 := by
  rw [← magnitude_eq_zero_iff]
  constructor
  · intro hzero
    by_contra hne
    have hpos := (Nat.two_pow_pos _).trans_le (two_pow_le_magnitude hearlier hlater hd hne)
    exact hpos.ne' hzero
  · intro heq
    rw [magnitude_duration hearlier hlater hd, heq, Int.natAbs_zero, Nat.zero_mul, rounded_zero,
      Nat.zero_min]

end Leg

variable [Geodesy] (limits : MotionLimits)

namespace Motion

/-- **The guard of the rate of turn**: a leg that takes no time is not plausible, whatever the
limits. -/
theorem isPlausible_of_microsTo_eq_zero (h : l.earlier.microsTo l.later = 0) :
    isPlausible limits l = .ok false := by
  obtain ⟨d, hd, -⟩ := Leg.exists_duration hearlier hlater
  obtain ⟨b, hb, hne⟩ := exists_isPlausible limits hd
  cases b with
  | false => exact hb
  | true => exact absurd ((Leg.absBits_duration_eq_zero_iff hearlier hlater hd).mpr h) (hne rfl)

end Motion

end

/-! ### The rate of turn -/

/-- **Where the rate of turn has no value**: if neither leg takes time. -/
theorem Motion.turnRate_eq_error_iff [Geodesy] {zoned : Bool} {p q r : Ping}
    (htimed : ∀ s ∈ [p, q, r], s.TimedAs zoned) (f : Fault) :
    turnRate ⟨p, q⟩ ⟨q, r⟩ = .error f ↔
      f = .arithmetic .zeroDivisor ∧ p.microsTo q = 0 ∧ q.microsTo r = 0 := by
  simp only [List.forall_mem_cons, List.not_mem_nil, false_imp_iff, implies_true,
    and_true] at htimed
  obtain ⟨hp, hq, hr⟩ := htimed
  obtain ⟨d, hd, hneg, hbits⟩ := Leg.exists_duration (l := ⟨q, r⟩) hq hr
  obtain ⟨d', hd', hneg', hbits'⟩ := Leg.exists_duration (l := ⟨p, q⟩) hp hq
  have hafter := Leg.absBits_duration_eq_zero_iff (l := ⟨q, r⟩) hq hr hd
  have hbefore := Leg.absBits_duration_eq_zero_iff (l := ⟨p, q⟩) hp hq hd'
  rw [← hafter, ← hbefore, turnRate, hd, hd']
  simp only [bind, Except.bind]
  by_cases hzero : absBits d' = 0 ∧ absBits d = 0
  · have hsum : absBits (d + d') = 0 :=
      absBits_add_of_eq_zero (isFinite_of_absBits_eq_zero hzero.2)
        (isFinite_of_absBits_eq_zero hzero.1) (magnitude_eq_zero_iff.mpr hzero.2)
        (magnitude_eq_zero_iff.mpr hzero.1)
    rw [if_pos (beq_zero_iff.mpr hsum)]
    simp [hzero, eq_comm]
  · have hsum : absBits (d + d') ≠ 0 :=
      absBits_add_ne_zero hneg hneg' hbits hbits' (by tauto)
    rw [if_neg (mt beq_zero_iff.mp hsum)]
    simp [hzero, pure, Except.pure]

/-! ### Segmentation -/

namespace Tracklet

/-- **Where segmentation fails**: if a zoned time is to be compared with a naive one. -/
theorem segment_eq_error_iff [Geodesy] (limits : MotionLimits) (ps : List Ping) (f : Fault) :
    segment limits ps = .error f ↔ f = .timesNotComparable ∧ Ping.MixedTimes ps := by
  by_cases hmixed : Ping.MixedTimes ps
  · have hcomparable := Ping.comparable_of_mixedTimes hmixed.filter_isTimed
    rw [segment, Ping.inOrder, if_neg (by simp [hcomparable])]
    simp [bind, Except.bind, hmixed, eq_comm]
  · obtain ⟨sorted, tracklets, -, -, hsegment, -⟩ :=
      exists_segment limits (Ping.uniformTimes_of_not_mixedTimes hmixed)
    simp [hsegment, hmixed]

/-- **Segmentation never divides by zero**, and fails exactly where a zoned time meets a naive one.
For all limits, the test of a ping against a group has an answer if their times are all zoned or
all naive, in whatever order they come; the rate of turn alone has none where three pings are of
one time. -/
theorem segment_fails_iff_mixed [Geodesy] (limits : MotionLimits) :
    (∀ (zoned : Bool) (group : List Ping) (p : Ping), (∀ q ∈ group, q.TimedAs zoned) →
      p.TimedAs zoned → ∃ b, Motion.continues limits group p = .ok b) ∧
    (∀ (zoned : Bool) (p q r : Ping), (∀ s ∈ [p, q, r], s.TimedAs zoned) →
      ((∃ f, Motion.turnRate ⟨p, q⟩ ⟨q, r⟩ = .error f ∧ f.kind = .zeroDivision) ↔
        p.microsTo q = 0 ∧ q.microsTo r = 0)) ∧
    ∀ ps : List Ping, ((∃ f, segment limits ps = .error f) ↔ Ping.MixedTimes ps) ∧
      ∀ f, segment limits ps = .error f → f.kind = .type := by
  refine ⟨?_, ?_, fun ps => ⟨?_, ?_⟩⟩
  · intro zoned group p hgroup hp
    exact Motion.exists_continues limits hgroup hp
  · intro zoned p q r htimed
    constructor
    · rintro ⟨f, hf, -⟩
      exact ((Motion.turnRate_eq_error_iff htimed f).mp hf).2
    · intro htime
      exact ⟨_, (Motion.turnRate_eq_error_iff htimed _).mpr ⟨rfl, htime⟩, rfl⟩
  · constructor
    · rintro ⟨f, hf⟩
      exact ((segment_eq_error_iff limits ps f).mp hf).2
    · intro hmixed
      exact ⟨_, (segment_eq_error_iff limits ps _).mpr ⟨rfl, hmixed⟩⟩
  · intro f hf
    rw [((segment_eq_error_iff limits ps f).mp hf).1]
    rfl

/-- No time reaches this gap, no speed lies below this limit, and no rate of turn is allowed. -/
def strange : MotionLimits := ⟨.real undefined, .real infinity, .real (-1)⟩

/-- Three observations of one instant, the last of them at an offset from UTC. -/
def hovering : List Ping :=
  [⟨0, "a", 0, 0, some ⟨0, some (.fixed 0)⟩⟩, ⟨1, "a", 0, 1, some ⟨0, some (.fixed 0)⟩⟩,
    ⟨2, "a", 0, 2, some ⟨3600000000, some (.fixed 3600000000)⟩⟩]

/-- An observation whose time tells no offset. -/
def unzoned : Ping := ⟨3, "a", 0, 3, some ⟨0, none⟩⟩

theorem segment_fails_iff_mixed_strange :
    (∃ b, Motion.continues strange (hovering.take 2) hovering[2] = .ok b) ∧
    (∃ f, Motion.turnRate ⟨hovering[0], hovering[1]⟩ ⟨hovering[1], hovering[2]⟩ = .error f ∧
      f.kind = .zeroDivision) ∧
    (∃ f, segment strange (unzoned :: hovering) = .error f ∧ f.kind = .type) := by
  obtain ⟨htest, hturn, hsegment⟩ := segment_fails_iff_mixed strange
  have htimed : ∀ p ∈ hovering, p.TimedAs true := by
    simp [hovering, Ping.TimedAs, Timestamp.isZoned]
  refine ⟨?_, ?_, ?_⟩
  · refine htest true _ _ (fun p hp => ?_) ?_
    · exact htimed p (List.mem_of_mem_take hp)
    · exact htimed _ (List.getElem_mem _)
  · exact (hturn true _ _ _ htimed).mpr ⟨by decide, by decide⟩
  · obtain ⟨hfails, hkind⟩ := hsegment (unzoned :: hovering)
    obtain ⟨f, hf⟩ := hfails.mpr ⟨hovering[0], by simp [hovering], unzoned, by simp,
      htimed _ (List.getElem_mem _), _, rfl, rfl⟩
    exact ⟨f, hf, hkind f hf⟩

end Tracklet

end Corridor
