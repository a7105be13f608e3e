import Corridor.Proofs.Chronology
import Corridor.Proofs.Number.Bounds
import Corridor.Proofs.Partition
import Corridor.Tracklet
import Mathlib.Algebra.BigOperators.Group.List.Basic

/-!
# Segmentation into Tracklets

The test that decides whether a ping continues a tracklet has an answer for all pings whose times
compare: the rate of turn is asked for only after a leg that takes time. Hence the segmentation
of pings with uniform times never fails, and its result is the greedy partition of the timed
pings in order of time.

## Main results

* `exists_continues`: the test has an answer.
* `exists_segment`: segmentation has a result.
* `segment_isGreedy`: the tracklets are the greedy partition of the sorted pings, and the only
  one.
-/

namespace Corridor

/-! ### Durations -/

open Double

/-- The time between two pings with comparable times. -/
theorem Leg.duration_eq {zoned : Bool} {l : Leg} (hearlier : l.earlier.TimedAs zoned)
    (hlater : l.later.TimedAs zoned) :
    l.duration = .ok (ofRatio (l.earlier.microsTo l.later).natAbs 1000000) := by
  obtain ⟨s, hs, hsz⟩ := hearlier
  obtain ⟨t, ht, htz⟩ := hlater
  have hcomparable : s.comparable t = true := by
    rw [Timestamp.comparable, hsz, htz]
    exact beq_self_eq_true zoned
  rw [Leg.duration, Ping.microsTo, hs, ht]
  dsimp only
  rw [Timestamp.secondsApart, Timestamp.microsBetween, if_pos hcomparable]
  rfl

/-- The time between two pings with comparable times is known and not negative. -/
theorem Leg.exists_duration {zoned : Bool} {l : Leg} (hearlier : l.earlier.TimedAs zoned)
    (hlater : l.later.TimedAs zoned) :
    ∃ d, l.duration = .ok d ∧ isNegative d = false ∧ absBits d ≤ infinityBits := by
  refine ⟨_, Leg.duration_eq hearlier hlater, ?_, ?_⟩
  · rw [ofRatio_natCast, isNegative_ofSignedUnitRatio _ _ (by decide)]
  · rw [ofRatio_natCast, absBits_ofSignedUnitRatio _ _ (by decide)]
    exact Nat.min_le_right _ _

/-- The speed of a leg of known duration. -/
theorem Leg.speed_of_duration [Geodesy] {l : Leg} {d : Float} (h : l.duration = .ok d) :
    l.speed = .ok (if d == 0 then infinity else l.distance / d) := by
  rw [Leg.speed, h]
  simp only [bind, Except.bind]
  split_ifs <;> rfl

namespace Motion

variable (limits : MotionLimits) {before after : Leg} {zoned : Bool}

/-- No speed limit lies above the infinite speed. -/
theorem not_isAbove_infinity (q : Quantity) : Quantity.isAbove infinity q = false := by
  cases q with
  | whole n =>
      have hnan : infinity.isNaN = false := by decide
      have hinf : infinity.isInf = true := by decide
      simp only [Quantity.isAbove, hnan, hinf, if_true, if_false, Bool.false_eq_true]
      decide
  | real y =>
      simp only [Quantity.isAbove, decide_eq_false_iff_not]
      exact not_infinity_lt y

/-- A leg of known duration is plausible or not, and not if it takes no time. -/
theorem exists_isPlausible [Geodesy] {d : Float} (h : after.duration = .ok d) :
    ∃ b, isPlausible limits after = .ok b ∧ (b = true → absBits d ≠ 0) := by
  rw [isPlausible, h, Leg.speed_of_duration h]
  simp only [bind, Except.bind]
  by_cases hgap : Quantity.isAtMost d limits.gap = true
  · rw [if_pos hgap]
    exact ⟨false, rfl, by simp⟩
  · rw [if_neg hgap]
    refine ⟨_, rfl, fun hplausible h0 => ?_⟩
    rw [if_pos (beq_zero_iff.mpr h0), not_isAbove_infinity, Bool.and_false] at hplausible
    cases hplausible

/-- The rate of turn is known if the later leg takes time. -/
theorem exists_turnRate [Geodesy] {d d' : Float} (hafter : after.duration = .ok d)
    (hbefore : before.duration = .ok d') (hd : isNegative d = false) (hd' : isNegative d' = false)
    (hbits : absBits d ≤ infinityBits) (hbits' : absBits d' ≤ infinityBits)
    (h0 : absBits d ≠ 0) : ∃ r, turnRate before after = .ok r := by
  have hsum : ¬(d + d' == 0) = true := fun hc =>
    absBits_add_ne_zero hd hd' hbits hbits' (.inl h0) (beq_zero_iff.mp hc)
  rw [turnRate, hafter, hbefore]
  simp only [bind, Except.bind]
  rw [if_neg hsum]
  exact ⟨_, rfl⟩

/-- **The test has an answer** for all pings whose times are known and compare. -/
theorem exists_continues [Geodesy] {group : List Ping} {p : Ping}
    (hgroup : ∀ q ∈ group, q.TimedAs zoned) (hp : p.TimedAs zoned) :
    ∃ b, continues limits group p = .ok b := by
  have hmem : ∀ q ∈ group.reverse, q.TimedAs zoned := fun q hq =>
    hgroup q (List.mem_reverse.mp hq)
  rw [continues]
  cases hrev : group.reverse with
  | nil => exact ⟨true, rfl⟩
  | cons last earlier =>
      rw [hrev] at hmem
      obtain ⟨hlast, hearlier⟩ := List.forall_mem_cons.mp hmem
      obtain ⟨d, hd, hneg, hbits⟩ := Leg.exists_duration (l := ⟨last, p⟩) hlast hp
      obtain ⟨b, hb, hb0⟩ := exists_isPlausible limits hd
      simp only [hb, bind, Except.bind]
      cases b with
      | false => exact ⟨false, rfl⟩
      | true =>
          cases earlier with
          | nil => exact ⟨true, rfl⟩
          | cons previous rest =>
              have hprevious := hearlier previous List.mem_cons_self
              obtain ⟨d', hd', hneg', hbits'⟩ :=
                Leg.exists_duration (l := ⟨previous, last⟩) hprevious hlast
              obtain ⟨r, hr⟩ := exists_turnRate hd hd' hneg hneg' hbits hbits' (hb0 rfl)
              simp only [hr]
              exact ⟨_, rfl⟩

/-- No motion continues across a long gap. -/
theorem continues_of_gap [Geodesy] {limits : MotionLimits} {group : List Ping} {last p : Ping}
    {d : Float} (hlast : last ∈ group.getLast?) (hd : Leg.duration ⟨last, p⟩ = .ok d)
    (hgap : Quantity.isAtMost d limits.gap = true) : continues limits group p = .ok false := by
  obtain ⟨init, rfl⟩ := List.getLast?_eq_some_iff.mp hlast
  have hrefused : isPlausible limits ⟨last, p⟩ = .ok false := by
    rw [isPlausible, hd]
    simp only [bind, Except.bind]
    rw [if_pos hgap]
    rfl
  rw [continues, List.reverse_append, List.reverse_singleton, List.singleton_append]
  simp only [hrefused, bind, Except.bind]
  rfl

end Motion

/-! ### Tracklets -/

namespace Tracklet

variable {limits : MotionLimits} {ps : List Ping}

/-- The timed pings of a list with uniform times. -/
theorem exists_timedAs (h : Ping.UniformTimes ps) :
    ∃ zoned, ∀ p ∈ ps.filter Ping.isTimed, p.TimedAs zoned := by
  obtain ⟨zoned, hzoned⟩ := h
  refine ⟨zoned, fun p hp => ?_⟩
  obtain ⟨hmem, hsome⟩ := List.mem_filter.mp hp
  obtain ⟨t, ht⟩ := Option.isSome_iff_exists.mp hsome
  exact ⟨t, ht, hzoned p hmem t ht⟩

/-- A ping with a time is a tracklet of its own. -/
theorem segment_singleton [Geodesy] (limits : MotionLimits) {p : Ping} (h : p.isTimed = true) :
    segment limits [p] = .ok [[p]] := by
  obtain ⟨t, ht⟩ := Option.isSome_iff_exists.mp h
  have horder : Ping.inOrder [p] = .ok [p] :=
    Ping.inOrder_of_isChain (List.forall_mem_singleton.mpr ⟨t, ht, rfl⟩) (List.isChain_singleton p)
  rw [segment, List.filter_cons_of_pos h, List.filter_nil, horder]
  rfl

/-- Segmentation has a result, the greedy partition of the timed pings in order. -/
theorem exists_segment [Geodesy] (limits : MotionLimits) (h : Ping.UniformTimes ps) :
    ∃ sorted tracklets, Ping.inOrder (ps.filter Ping.isTimed) = .ok sorted ∧
      Ping.IsSorted (ps.filter Ping.isTimed) sorted ∧ segment limits ps = .ok tracklets ∧
      Partition.IsGreedy (Motion.continues limits) sorted tracklets := by
  obtain ⟨zoned, htimed⟩ := exists_timedAs h
  have horder := Ping.inOrder_of_timedAs htimed
  have hsort := Ping.isSorted_sort (ps.filter Ping.isTimed)
  set sorted := Sorting.sort Ping.isBefore (ps.filter Ping.isTimed)
  have hsorted_timed : ∀ p ∈ sorted, p.TimedAs zoned := fun p hp =>
    htimed p (hsort.perm.mem_iff.mp hp)
  obtain ⟨tracklets, hgreedy⟩ := Partition.exists_greedy
    (fun g x hg hx => Motion.exists_continues limits hg hx) hsorted_timed
  refine ⟨sorted, tracklets, horder, hsort, ?_, Partition.isGreedy_of_greedy hgreedy⟩
  rw [segment, horder]
  exact hgreedy

/-- Pings that come a long time after each other are tracklets of their own. -/
theorem segment_of_gaps [Geodesy] {zoned : Bool} (htimed : ∀ p ∈ ps, p.TimedAs zoned)
    {sorted : List Ping} (hsort : Sorting.sort Ping.isBefore ps = sorted)
    (h : sorted.IsChain fun p q =>
      Quantity.isAtMost (ofRatio (p.microsTo q).natAbs 1000000) limits.gap = true) :
    segment limits ps = .ok (sorted.map ([·])) := by
  have hmem : ∀ p ∈ sorted, p.TimedAs zoned := fun p hp =>
    htimed p ((Sorting.sort_perm ps).mem_iff.mp (hsort ▸ hp))
  rw [segment, Ping.filter_isTimed htimed, Ping.inOrder_of_timedAs htimed, hsort]
  refine Partition.greedy_of_isGreedy (Partition.isGreedy_map_singleton ?_)
  refine h.imp_of_mem_imp fun p q hp hq hgap => ?_
  exact Motion.continues_of_gap rfl (Leg.duration_eq (hmem p hp) (hmem q hq)) hgap

section

variable [Geodesy] {sorted : List Ping} {tracklets : List (List Ping)}
  (hsort : Ping.IsSorted (ps.filter Ping.isTimed) sorted)
  (hgreedy : Partition.IsGreedy (Motion.continues limits) sorted tracklets)
include hsort hgreedy

/-- The pings of a tracklet are some of those given, and none is before the one in front of it. -/
theorem ordered_tracklet {tracklet : List Ping} (hmem : tracklet ∈ tracklets) :
    tracklet.IsChain (fun p q => q.isBefore p = false) ∧ tracklet.Sublist sorted ∧
      ∀ p ∈ tracklet, p ∈ ps.filter Ping.isTimed := by
  have hpart : tracklet <:+: sorted := hgreedy.flatten_eq ▸ List.infix_of_mem_flatten hmem
  have hordered := List.IsChain.infix hsort.neighbours hpart
  exact ⟨hordered, hpart.sublist, fun p hp => hsort.perm.mem_iff.mp (hpart.subset hp)⟩

/-- The pings of a tracklet have times and are in order. -/
theorem inOrder_tracklet (h : Ping.UniformTimes ps) {tracklet : List Ping}
    (hmem : tracklet ∈ tracklets) :
    tracklet.filter Ping.isTimed = tracklet ∧ Ping.inOrder tracklet = .ok tracklet := by
  obtain ⟨zoned, htimed⟩ := exists_timedAs h
  obtain ⟨hordered, -, hgiven⟩ := ordered_tracklet hsort hgreedy hmem
  have htracklet : ∀ p ∈ tracklet, p.TimedAs zoned := fun p hp => htimed p (hgiven p hp)
  constructor
  · exact Ping.filter_isTimed htracklet
  · exact Ping.inOrder_of_isChain htracklet hordered

/-- There are no more tracklets than pings. -/
theorem length_tracklets_le : tracklets.length ≤ ps.length := by
  have hle : tracklets.length ≤ tracklets.flatten.length := by
    rw [List.length_flatten, ← List.length_map List.length]
    refine List.length_le_sum_of_one_le _ fun n hn => ?_
    obtain ⟨g, hg, rfl⟩ := List.mem_map.mp hn
    exact List.length_pos_iff.mpr (hgreedy.ne_nil g hg)
  rw [hgreedy.flatten_eq, hsort.perm.length_eq] at hle
  exact hle.trans (List.length_filter_le _ _)

end

/-- **Segmentation is the canonical greedy partition**: pings with uniform times fall into
tracklets which follow each other to the sorted timed pings, in which every later ping continues
the motion of those before it, and of which none is continued by the first ping of the next. No
other groups do, and each tracklet alone is segmented into itself. The order is stable where
comparing times is transitive; where it is not, it leaves no two neighbours out of order. -/
theorem segment_isGreedy [Geodesy] (limits : MotionLimits) {ps : List Ping}
    (h : Ping.UniformTimes ps) :
    ∃ sorted tracklets, Ping.inOrder (ps.filter Ping.isTimed) = .ok sorted ∧
      Ping.IsSorted (ps.filter Ping.isTimed) sorted ∧ segment limits ps = .ok tracklets ∧
      Partition.IsGreedy (Motion.continues limits) sorted tracklets ∧
      (∀ groups, Partition.IsGreedy (Motion.continues limits) sorted groups →
        groups = tracklets) ∧
      ∀ tracklet ∈ tracklets, segment limits tracklet = .ok [tracklet] := by
  obtain ⟨sorted, tracklets, horder, hsort, hsegment, hgreedy⟩ := exists_segment limits h
  refine ⟨sorted, tracklets, horder, hsort, hsegment, hgreedy,
    fun groups hgroups => hgreedy.unique hgroups, fun g hg => ?_⟩
  obtain ⟨htimed, hsame⟩ := inOrder_tracklet hsort hgreedy h hg
  rw [segment, htimed, hsame]
  exact Partition.greedy_of_isGreedy (hgreedy.singleton hg)

/-- Two observations in the reverse order of time, and one at an unknown time between them. -/
def reversed : List Ping :=
  [⟨0, "a", 0, 0, some ⟨5, none⟩⟩, ⟨1, "a", 0, 1, none⟩, ⟨2, "a", 0, 2, some ⟨3, none⟩⟩]

theorem segment_isGreedy_reversed : ∃ sorted tracklets,
    Ping.inOrder (reversed.filter Ping.isTimed) = .ok sorted ∧
    Ping.IsSorted (reversed.filter Ping.isTimed) sorted ∧
    segment ⟨.whole 60, .whole 10, .whole 5⟩ reversed = .ok tracklets ∧
    Partition.IsGreedy (Motion.continues ⟨.whole 60, .whole 10, .whole 5⟩) sorted tracklets ∧
    (∀ groups,
      Partition.IsGreedy (Motion.continues ⟨.whole 60, .whole 10, .whole 5⟩) sorted groups →
      groups = tracklets) ∧
    ∀ tracklet ∈ tracklets,
      segment ⟨.whole 60, .whole 10, .whole 5⟩ tracklet = .ok [tracklet] := by
  have huniform : Ping.UniformTimes reversed := by
    refine ⟨false, fun p hp t ht => ?_⟩
    simp only [reversed, List.mem_cons, List.not_mem_nil, or_false] at hp
    rcases hp with rfl | rfl | rfl <;> cases ht <;> rfl
  exact segment_isGreedy _ huniform

end Tracklet

end Corridor
