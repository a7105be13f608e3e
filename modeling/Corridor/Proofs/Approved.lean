import Corridor.Proofs.Ranges
import Corridor.Proofs.Settings
import Corridor.Proofs.Totality

/-!
# Scorers See What Segmentation Approves

Segmentation puts pings in order and tests each of them against the group before it; a track puts
the pings of a group in order once more and pairs them up. The two agree, for the test of a ping is
about the very leg that the track has to it. A leg that takes no time has the infinite speed, which
no limit allows, and a length that is not a number makes a speed that is not positive. So the times
of a tracklet increase, and its legs have speeds that are positive, finite and allowed.

All of this holds however ways are measured. That the speeds of a track have statistics depends on
their sums, for which it is enough that no way is much longer than half a meridian.

## Main results

* `Leg.isAllowed_of_isPlausible`: the legs that segmentation approves.
* `Track.ofLegs_legs_through`: the legs of a track are contiguous and make the same track.
* `Track.exists_speedStatistics`, `Track.speedStatistics_ranges`: the statistics of allowed legs.
* `Tracklet.isSeenAs_through`: what a scorer sees of pings that follow one another plausibly.
* `Tracklet.segment_approved`: what a scorer sees of every tracklet.
-/

namespace Corridor

open Double

/-! ### Comparisons with limits -/

namespace Quantity

variable {q : Quantity} {x : Float}

/-- A number that a positive quantity does not reach is less. -/
theorem isAbove_of_not_isAtMost (hq : q.isPositive = true) (hx : x.isNaN = false)
    (h : isAtMost x q = false) : isAbove x q = true := by
  cases q with
  | whole n =>
      simp only [isAtMost, isAbove, hx, Bool.false_eq_true, if_false] at h ⊢
      split_ifs at h ⊢ with hinf
      · simpa using h
      · simpa using h
  | real y =>
      have hy : 0 < y := of_decide_eq_true hq
      exact decide_eq_true (lt_of_not_le (pos_iff.mp hy).1 hx (of_decide_eq_false h))

/-- What is less than a quantity is not infinite. -/
theorem isFinite_of_isAbove (hx : 0 ≤ x) (h : isAbove x q = true) : x.isFinite = true := by
  cases hfinite : x.isFinite with
  | true => rfl
  | false =>
      rw [eq_infinity_of_nonneg hx hfinite, Motion.not_isAbove_infinity] at h
      cases h

end Quantity

/-- The number that a limit stands for is that of its datum. -/
theorem Settings.Limit.quantity?_datum (l : Limit) : l.datum.quantity? = some l.quantity := by
  rcases l with _ | _ | _ <;> rfl

/-- The longest time between pings of valid settings is positive. -/
theorem Settings.IsValid.isPositive_gap {s : Settings} (h : s.IsValid) :
    s.motionLimits.gap.isPositive = true := by
  obtain ⟨q, x, hq, hpos, -⟩ := h.limit .maxGap (by decide)
  obtain rfl := Option.some.inj ((Limit.quantity?_datum s.maxGap).symm.trans hq)
  exact hpos

/-! ### The legs of a track -/

namespace Track

theorem legs_cons_cons (p q : Ping) (ps : List Ping) :
    legs ⟨p :: q :: ps⟩ = ⟨p, q⟩ :: legs ⟨q :: ps⟩ := rfl

/-- What holds of neighbours holds of legs. -/
theorem forall_mem_legs {P : Leg → Prop} {ps : List Ping} (h : ps.IsChain fun p q => P ⟨p, q⟩) :
    ∀ l ∈ legs ⟨ps⟩, P l := by
  induction ps with
  | nil => simp [legs]
  | cons p ps ih =>
      cases ps with
      | nil => simp [legs]
      | cons q ps =>
          obtain ⟨hfirst, hrest⟩ := List.isChain_cons_cons.mp h
          rw [legs_cons_cons]
          exact List.forall_mem_cons.mpr ⟨hfirst, ih hrest⟩

/-- A leg joins two stops. -/
theorem mem_of_mem_legs (ps : List Ping) : ∀ l ∈ legs ⟨ps⟩, l.earlier ∈ ps ∧ l.later ∈ ps := by
  refine forall_mem_legs (List.isChain_iff_forall_rel_of_append_cons_cons.mpr ?_)
  rintro p q before after rfl
  constructor
  · simp
  · simp

/-- One ping alone makes no leg. -/
theorem legs_through (ps : List Ping) : (through ps).legs = legs ⟨ps⟩ := by
  match ps with
  | [] | [_] => rfl
  | p :: q :: ps => exact congrArg legs (if_neg (by simp))

/-- The stops of a track are some of the pings that it goes through. -/
theorem sublist_stops (ps : List Ping) : (through ps).stops.Sublist ps := by
  rw [through]
  split_ifs
  · exact List.nil_sublist ps
  · exact List.Sublist.refl ps

/-- The legs of a track are contiguous. -/
theorem contiguous_legs (ps : List Ping) : contiguous (legs ⟨ps⟩) = true := by
  induction ps with
  | nil => rfl
  | cons p ps ih =>
      match ps with
      | [] | [_] => rfl
      | q :: r :: ps =>
          rw [legs_cons_cons] at ih
          rw [legs_cons_cons, legs_cons_cons, contiguous, ih]
          simp

/-- The legs of a track end at all of its stops but the first. -/
theorem map_later_legs (ps : List Ping) : (legs ⟨ps⟩).map Leg.later = ps.tail := by
  induction ps with
  | nil => rfl
  | cons p ps ih =>
      cases ps with
      | nil => rfl
      | cons q ps =>
          rw [legs_cons_cons, List.map_cons, ih]
          rfl

theorem length_legs (ps : List Ping) : (legs ⟨ps⟩).length = ps.length - 1 := by
  rw [← List.length_map Leg.later, map_later_legs, List.length_tail]

/-- **The legs of a track make the same track.** -/
theorem ofLegs_legs_through (ps : List Ping) : ofLegs (through ps).legs = .ok (through ps) := by
  match ps with
  | [] | [_] => rfl
  | p :: q :: ps =>
      have hthrough : through (p :: q :: ps) = ⟨p :: q :: ps⟩ := if_neg (by simp)
      rw [hthrough, ofLegs, if_pos (contiguous_legs _), map_later_legs, legs_cons_cons]
      rfl

end Track

/-! ### Legs that are approved -/

/-- No way is longer than half a meridian, which is less than `2 ^ 25` metres. The length of a way
between positions that do not exist is not a number. -/
def Geodesy.IsBounded (g : Geodesy) : Prop :=
  ∀ p q, (g.course p q).distance.isNaN = true ∨ UpTo 25 (g.course p q).distance

/-- The leg takes some time, less than the allowed one, at a positive speed that is allowed. -/
structure Leg.IsAllowed [Geodesy] (limits : MotionLimits) (l : Leg) : Prop where
  duration : ∃ d, l.duration = .ok d ∧ 0 < d ∧ d.isFinite = true ∧
    Quantity.isAbove d limits.gap = true
  speed : ∃ v, l.speed = .ok v ∧ 0 < v ∧ v.isFinite = true ∧
    Quantity.isAbove v limits.speed = true

section

variable [g : Geodesy] {limits : MotionLimits} {zoned : Bool}

namespace Motion

/-- What is known of a plausible leg. -/
theorem of_isPlausible {l : Leg} (h : isPlausible limits l = .ok true) :
    ∃ d v, l.duration = .ok d ∧ absBits d ≠ 0 ∧ Quantity.isAtMost d limits.gap = false ∧
      l.speed = .ok v ∧ 0 < v ∧ Quantity.isAbove v limits.speed = true := by
  obtain ⟨d, hd, hrest⟩ := Run.bind_eq_ok.mp h
  obtain ⟨b, hb, hne⟩ := exists_isPlausible limits hd
  obtain rfl := Except.ok.inj (hb.symm.trans h)
  split_ifs at hrest with hgap
  · cases Except.ok.inj hrest
  · obtain ⟨v, hv, hrest⟩ := Run.bind_eq_ok.mp hrest
    obtain ⟨hpos, hspeed⟩ := Bool.and_eq_true_iff.mp (Except.ok.inj hrest)
    exact ⟨d, v, hd, hne rfl, Bool.eq_false_iff.mpr hgap, hv, of_decide_eq_true hpos, hspeed⟩

/-- The last leg of a group that is continued is plausible. -/
theorem isPlausible_of_continues {before : List Ping} {p q : Ping}
    (h : continues limits (before ++ [p]) q = .ok true) : isPlausible limits ⟨p, q⟩ = .ok true := by
  rw [continues, List.reverse_append, List.reverse_singleton, List.singleton_append] at h
  obtain ⟨b, hb, h⟩ := Run.bind_eq_ok.mp h
  cases b with
  | true => exact hb
  | false => cases Except.ok.inj h

end Motion

namespace Leg

variable {l : Leg} (hearlier : l.earlier.TimedAs zoned) (hlater : l.later.TimedAs zoned)
include hearlier hlater

/-- A plausible leg takes time, so it leads forward if it does not lead back. -/
theorem isBefore_of_isPlausible (h : Motion.isPlausible limits l = .ok true)
    (hordered : l.later.isBefore l.earlier = false) : l.earlier.isBefore l.later = true := by
  have hne : l.earlier.microsTo l.later ≠ 0 := by
    intro hzero
    rw [Motion.isPlausible_of_microsTo_eq_zero hearlier hlater limits hzero] at h
    cases Except.ok.inj h
  rw [Ping.isBefore_eq_false_iff] at hordered
  rw [Ping.isBefore_eq_true_iff]
  omega

/-- **Plausible legs are allowed.** -/
theorem isAllowed_of_isPlausible (hgap : limits.gap.isPositive = true)
    (h : Motion.isPlausible limits l = .ok true) : l.IsAllowed limits := by
  obtain ⟨d, v, hd, hne, hbelow, hv, hpos, hspeed⟩ := Motion.of_isPlausible h
  obtain ⟨d', hd', hsign, hbits⟩ := Leg.exists_duration hearlier hlater
  obtain rfl := Except.ok.inj (hd'.symm.trans hd)
  have hnonneg := nonneg_of_absBits hsign hbits
  have habove := Quantity.isAbove_of_not_isAtMost hgap (isNaN_of_nonneg hnonneg) hbelow
  refine ⟨⟨d', hd, ?_, Quantity.isFinite_of_isAbove hnonneg habove, habove⟩,
    ⟨v, hv, hpos, Quantity.isFinite_of_isAbove (Double.le_of_lt hpos) hspeed, hspeed⟩⟩
  have hmagnitude : magnitude d' ≠ 0 := mt magnitude_eq_zero_iff.mp hne
  have hunits := units_of_nonneg (nonneg_iff.mp hnonneg).2
  exact pos_iff.mpr ⟨isNaN_of_nonneg hnonneg, by omega⟩

/-- The speed of an allowed leg is at most `2 ^ 45` metres per second. -/
theorem within_speed (hbounded : g.IsBounded) (h : l.IsAllowed limits) {v : Float}
    (hv : l.speed = .ok v) : Within (45 + unitExponent) v := by
  obtain ⟨d, hd, hpos, hfinite, -⟩ := h.duration
  obtain ⟨w, hw, hspeed, -⟩ := h.speed
  obtain rfl := Except.ok.inj (hw.symm.trans hv)
  have hbits : absBits d ≠ 0 := mt magnitude_eq_zero_iff.mpr (magnitude_pos_of_pos hpos).ne'
  have hmagnitude := two_pow_le_magnitude hearlier hlater hd
    (mt (absBits_duration_eq_zero_iff hearlier hlater hd).mpr hbits)
  rw [Leg.speed_of_duration hd, if_neg (mt beq_zero_iff.mp hbits)] at hw
  obtain rfl := Except.ok.inj hw
  rcases hbounded l.earlier.position l.later.position with hnan | hlength
  · -- a length that is not a number makes a speed that is none either, so not a positive one
    have hspeednan : (l.distance / d).isNaN = true := isNaN_div_of_isNaN hnan d
    rw [(pos_iff.mp hspeed).1] at hspeednan
    cases hspeednan
  · exact hlength.2.div_of_two_pow_le (by omega) hfinite hmagnitude (by omega)

end Leg

/-! ### Speeds of a track -/

namespace Track

variable {t : Track} (hallowed : ∀ l ∈ t.legs, l.IsAllowed limits)
include hallowed

/-- **Statistics of allowed legs**: the least speed is positive, and the greatest is allowed. -/
theorem speedStatistics_ranges (hne : t.legs ≠ []) {st : SpeedStatistics}
    (h : t.speedStatistics = .ok st) :
    0 < st.min ∧ st.min ≤ st.max ∧ Quantity.isAbove st.max limits.speed = true := by
  obtain ⟨speeds, hspeeds, h⟩ := Run.bind_eq_ok.mp h
  have hspeed : ∀ v ∈ speeds, 0 < v ∧ v.isFinite = true ∧
      Quantity.isAbove v limits.speed = true := by
    intro v hv
    obtain ⟨l, hl, hlv⟩ := Run.exists_of_mem_mapM hspeeds hv
    obtain ⟨w, hw, hranges⟩ := (hallowed l hl).speed
    obtain rfl := Except.ok.inj (hw.symm.trans hlv)
    exact hranges
  cases speeds with
  | nil => exact absurd (List.forall₂_nil_right_iff.mp (Run.mapM_eq_ok.mp hspeeds)) hne
  | cons v vs =>
      obtain ⟨mean, -, h⟩ := Run.bind_eq_ok.mp h
      obtain ⟨deviation, -, h⟩ := Run.bind_eq_ok.mp h
      obtain rfl := Except.ok.inj h
      obtain ⟨hfirst, hrest⟩ := List.forall_mem_cons.mp hspeed
      obtain ⟨hpos, hleast, -⟩ := hspeed _ (Stats.least_mem v vs)
      obtain ⟨-, hgreatest, hbelow⟩ := hspeed _ (Stats.greatest_mem v vs)
      obtain ⟨-, hle⟩ := Stats.greatest_ranges hfirst.2.1 fun w hw => (hrest w hw).2.1
      refine ⟨hpos, le_iff.mpr ⟨isNaN_of_isFinite hleast, isNaN_of_isFinite hgreatest, ?_⟩, hbelow⟩
      exact hle _ (Stats.least_mem v vs)

/-- **Statistics have values** for no more than `2 ^ 63` stops, if ways are not too long. -/
theorem exists_speedStatistics (hbounded : g.IsBounded)
    (htimed : ∀ p ∈ t.stops, p.TimedAs zoned) (hlen : t.stops.length ≤ 2 ^ 63) :
    ∃ st, t.speedStatistics = .ok st := by
  obtain ⟨values, hvalues⟩ := Run.exists_mapM fun l hl =>
    (hallowed l hl).speed.imp fun v hv => hv.1
  have hwithin : ∀ v ∈ values, Within (45 + unitExponent) v := by
    intro v hv
    obtain ⟨l, hl, hlv⟩ := Run.exists_of_mem_mapM hvalues hv
    obtain ⟨hearlier, hlater⟩ := mem_of_mem_legs t.stops l hl
    exact Leg.within_speed (htimed _ hearlier) (htimed _ hlater) hbounded (hallowed l hl) hlv
  have hlength : values.length ≤ 2 ^ 63 := by
    rw [← (Run.mapM_eq_ok.mp hvalues).length_eq]
    exact (length_legs t.stops).le.trans ((Nat.sub_le _ _).trans hlen)
  cases values with
  | nil => exact ⟨_, Run.bind_eq_ok.mpr ⟨[], hvalues, rfl⟩⟩
  | cons v vs =>
      obtain ⟨mean, hmean, hcentre⟩ :=
        Stats.exists_mean (List.cons_ne_nil v vs) hwithin hlength (by decide) (by decide)
      obtain ⟨deviation, hdeviation⟩ := Stats.exists_deviationFrom
        (fun w hw => (hwithin w hw).mono (by decide)) (k := 108) hcentre hlength (by decide)
      refine ⟨⟨Stats.greatest v vs, Stats.least v vs, mean, deviation⟩,
        Run.bind_eq_ok.mpr ⟨v :: vs, hvalues, Run.bind_eq_ok.mpr ⟨mean, ?_, ?_⟩⟩⟩
      · exact Run.mapError_eq_ok.mpr hmean
      · exact Run.bind_eq_ok.mpr ⟨deviation, Run.mapError_eq_ok.mpr hdeviation, rfl⟩

end Track

/-! ### Tracklets -/

namespace Tracklet

/-- What a scorer sees of a tracklet within limits. -/
structure IsSeenAs (limits : MotionLimits) (tracklet : List Ping) (track : Track) : Prop where
  timed : ∀ p ∈ tracklet, p.isTimed = true
  /-- Every ping is before the next one, and before all that follow if comparing is transitive. -/
  times_lt : tracklet.IsChain (fun p q => p.isBefore q = true) ∧
    (Ping.Consistent tracklet → tracklet.Pairwise fun p q => p.isBefore q = true)
  ofPings : Track.ofPings tracklet = .ok track
  /-- The legs pass the check that a track makes of given legs. -/
  ofLegs : Track.ofLegs track.legs = .ok track
  stops_of_length_le_one : tracklet.length ≤ 1 → track.stops = []
  stops_of_two_le_length : 2 ≤ tracklet.length → track.stops = tracklet
  /-- The scorer is called once, and about this track. -/
  calls : ∀ scorer divisions t,
    (Run.resume t (Evidence.scoreTracklet scorer divisions tracklet)).2.calls =
      t.calls ++ [⟨track, divisions⟩]
  allowed : ∀ l ∈ track.legs, l.IsAllowed limits
  statistics : 2 ≤ tracklet.length → ∀ st, track.speedStatistics = .ok st →
    0 < st.min ∧ st.min ≤ st.max ∧ Quantity.isAbove st.max limits.speed = true

/-- Every leg of a group of pings that continue one another is plausible. -/
theorem isChain_of_joined {tracklet : List Ping}
    (h : Partition.Joined (Motion.continues limits) tracklet) :
    tracklet.IsChain fun p q => Motion.isPlausible limits ⟨p, q⟩ = .ok true := by
  rw [List.isChain_iff_forall_rel_of_append_cons_cons]
  rintro p q before after rfl
  refine Motion.isPlausible_of_continues (h (before ++ [p]) q after ?_ (by simp))
  rw [List.append_assoc, List.singleton_append]

section

variable {tracklet : List Ping} (htimed : ∀ p ∈ tracklet, p.TimedAs zoned)
  (hchain : tracklet.IsChain fun p q => Motion.isPlausible limits ⟨p, q⟩ = .ok true)
include htimed hchain

/-- The times of pings in order increase if every leg takes time. -/
theorem times_lt_of_isChain
    (hordered : tracklet.IsChain fun p q => q.isBefore p = false) :
    tracklet.IsChain (fun p q => p.isBefore q = true) ∧
      (Ping.Consistent tracklet → tracklet.Pairwise fun p q => p.isBefore q = true) := by
  have hneighbours : tracklet.IsChain fun p q => p.isBefore q = true := by
    rw [List.isChain_iff_forall_rel_of_append_cons_cons]
    rintro p q before after rfl
    have hle := List.isChain_iff_forall_rel_of_append_cons_cons.mp hordered rfl
    have hplausible := List.isChain_iff_forall_rel_of_append_cons_cons.mp hchain rfl
    have hp : p.TimedAs zoned := htimed p (by simp)
    have hq : q.TimedAs zoned := htimed q (by simp)
    exact Leg.isBefore_of_isPlausible (l := ⟨p, q⟩) hp hq hplausible hle
  refine ⟨hneighbours, fun hconsistent => ?_⟩
  refine Sorting.pairwise_of_isChain (List.Subset.refl _) (fun p hp q hq r hr hpq hqr => ?_)
    hneighbours
  exact hconsistent.before_trans hp hq hr Ping.isAsymmetric_isBefore hpq hqr

/-- The legs through pings that follow one another plausibly are allowed. -/
theorem isAllowed_of_isChain (hgap : limits.gap.isPositive = true) :
    ∀ l ∈ (Track.through tracklet).legs, l.IsAllowed limits := by
  rw [Track.legs_through]
  refine Track.forall_mem_legs (hchain.imp_of_mem_imp fun p q hp hq hpq => ?_)
  exact Leg.isAllowed_of_isPlausible (htimed p hp) (htimed q hq) hgap hpq

/-- **Pings in order that follow one another plausibly are seen as they are.** -/
theorem isSeenAs_through (hgap : limits.gap.isPositive = true)
    (hordered : tracklet.IsChain fun p q => q.isBefore p = false) :
    IsSeenAs limits tracklet (Track.through tracklet) := by
  have htrack : Track.ofPings tracklet = .ok (Track.through tracklet) := by
    rw [Track.ofPings, Ping.inOrder_of_isChain htimed hordered]
    rfl
  have hallowed := isAllowed_of_isChain htimed hchain hgap
  constructor
  case timed =>
    intro p hp
    obtain ⟨t, ht, -⟩ := htimed p hp
    exact Option.isSome_of_eq_some ht
  case times_lt => exact times_lt_of_isChain htimed hchain hordered
  case ofPings => exact htrack
  case ofLegs => exact Track.ofLegs_legs_through tracklet
  case stops_of_length_le_one =>
    intro hone
    rw [Track.through, if_pos hone]
  case stops_of_two_le_length =>
    intro htwo
    rw [Track.through, if_neg (by omega)]
  case calls =>
    intro scorer divisions t
    rw [Evidence.resume_scoreTracklet scorer divisions t htrack]
    cases scorer.answer divisions t.calls.length (Track.through tracklet) with
    | ok x => rfl
    | error f => rfl
  case allowed => exact hallowed
  case statistics =>
    intro htwo st hst
    refine Track.speedStatistics_ranges hallowed (fun hnil => ?_) hst
    have hlegs := congrArg List.length hnil
    rw [Track.legs_through, Track.length_legs, List.length_nil] at hlegs
    omega

end

/-- **Scorers see what segmentation approves.** With limits of accepted settings, pings with uniform
times fall into tracklets whose times increase, and none of the timed ones is left out; the track of
each tracklet has the same pings in the same order, and its legs and the statistics of their speeds
are within the limits. -/
theorem segment_approved {draft : Settings.Draft} {settings : Settings}
    (hsettings : Settings.ofDraft draft = .ok settings) {ps : List Ping}
    (h : Ping.UniformTimes ps) :
    ∃ tracklets, segment settings.motionLimits ps = .ok tracklets ∧
      tracklets.flatten.Perm (ps.filter Ping.isTimed) ∧
      ∀ tracklet ∈ tracklets, ∃ track, IsSeenAs settings.motionLimits tracklet track ∧
        (g.IsBounded → ps.length ≤ 2 ^ 63 → ∃ st, track.speedStatistics = .ok st) := by
  have hgap := (Settings.isValid_of_ofDraft hsettings).isPositive_gap
  obtain ⟨sorted, tracklets, -, hsort, hsegment, hgreedy⟩ := exists_segment settings.motionLimits h
  obtain ⟨zoned, hzoned⟩ := exists_timedAs h
  refine ⟨tracklets, hsegment, hgreedy.flatten_eq ▸ hsort.perm, fun tracklet hmem => ?_⟩
  obtain ⟨hordered, hsub, hgiven⟩ := ordered_tracklet hsort hgreedy hmem
  have htimed : ∀ p ∈ tracklet, p.TimedAs zoned := fun p hp => hzoned p (hgiven p hp)
  have hchain := isChain_of_joined (hgreedy.joined tracklet hmem)
  have hseen := isSeenAs_through htimed hchain hgap hordered
  refine ⟨Track.through tracklet, hseen, fun hbounded hlength => ?_⟩
  have hstops := Track.sublist_stops tracklet
  have hstopsTimed : ∀ p ∈ (Track.through tracklet).stops, p.TimedAs zoned := fun p hp =>
    htimed p (hstops.subset hp)
  refine Track.exists_speedStatistics hseen.allowed hbounded hstopsTimed ?_
  calc (Track.through tracklet).stops.length ≤ sorted.length := (hstops.trans hsub).length_le
    _ = (ps.filter Ping.isTimed).length := hsort.perm.length_eq
    _ ≤ ps.length := List.length_filter_le _ _
    _ ≤ 2 ^ 63 := hlength

end Tracklet

end

/-! ### A flight -/

namespace Tracklet

/-- Ways to the east along the equator, by up to one degree; no other ways are measured. -/
@[reducible] def equator : Geodesy where
  course p q :=
    let d := q.lon - p.lon
    if p.lat == 0 && q.lat == 0 && 0 ≤ d && d ≤ 1 then
      ⟨Geodesic.equatorialRadius * (d * Geodesic.degree), 90⟩
    else ⟨undefined, undefined⟩

theorem isBounded_equator : equator.IsBounded := by
  intro p q
  have hradius : UpTo 23 Geodesic.equatorialRadius :=
    ⟨by decide +kernel, by decide +kernel, by decide +kernel⟩
  have hdegree : UpTo 0 Geodesic.degree := upTo_of_le_one (by decide +kernel) (by decide +kernel)
  by_cases h : (p.lat == 0 && q.lat == 0 && 0 ≤ q.lon - p.lon && q.lon - p.lon ≤ 1) = true
  · have hcourse : equator.course p q =
        ⟨Geodesic.equatorialRadius * ((q.lon - p.lon) * Geodesic.degree), 90⟩ := if_pos h
    simp only [Bool.and_eq_true, decide_eq_true_eq] at h
    obtain ⟨⟨-, hd0⟩, hd1⟩ := h
    have hangle := (upTo_of_le_one hd0 hd1).mul hdegree (by decide)
    rw [hcourse]
    exact .inr ((hradius.mul hangle (by decide)).mono (by decide))
  · have hcourse : equator.course p q = ⟨undefined, undefined⟩ := if_neg h
    rw [hcourse]
    exact .inl (by decide)

/-- A flight to the east, with two observations at one instant. -/
def eastward : List Ping :=
  [⟨0, "a", 0, 0, some ⟨0, none⟩⟩, ⟨1, "a", 0.01, 0, some ⟨10000000, none⟩⟩,
    ⟨2, "a", 0.01, 0, some ⟨10000000, none⟩⟩, ⟨3, "a", 0.02, 0, some ⟨20000000, none⟩⟩,
    ⟨4, "a", 0.03, 0, some ⟨30000000, none⟩⟩]

theorem timedAs_eastward : ∀ p ∈ eastward, p.TimedAs false := by decide +kernel

theorem uniformTimes_eastward : Ping.UniformTimes eastward :=
  Ping.uniformTimes_of_timedAs timedAs_eastward

/-- The second observation of the one instant starts a tracklet. -/
theorem segment_eastward : @segment equator Settings.preset.motionLimits eastward =
    .ok [eastward.take 2, eastward.drop 2] := by
  have hgreedy : (Partition.greedy (@Motion.continues equator Settings.preset.motionLimits)
      eastward).toOption = some [eastward.take 2, eastward.drop 2] := by decide +kernel
  refine Run.bind_eq_ok.mpr ⟨eastward, ?_, ?_⟩
  · have htimed : eastward.filter Ping.isTimed = eastward := rfl
    rw [htimed]
    exact Ping.inOrder_of_isChain timedAs_eastward (by decide +kernel)
  · cases hgroups : Partition.greedy (@Motion.continues equator Settings.preset.motionLimits)
        eastward with
    | error f =>
        rw [hgroups] at hgreedy
        cases hgreedy
    | ok groups =>
        rw [hgroups] at hgreedy
        exact congrArg Except.ok (Option.some.inj hgreedy)

theorem segment_approved_eastward :
    Settings.ofDraft Settings.Field.preset = .ok Settings.preset ∧
    Ping.UniformTimes eastward ∧ equator.IsBounded ∧ eastward.length ≤ 2 ^ 63 ∧
    @segment equator Settings.preset.motionLimits eastward =
      .ok [eastward.take 2, eastward.drop 2] ∧
    [eastward.take 2, eastward.drop 2].flatten.Perm (eastward.filter Ping.isTimed) ∧
    ∀ tracklet ∈ [eastward.take 2, eastward.drop 2], ∃ track,
      @IsSeenAs equator Settings.preset.motionLimits tracklet track ∧
      ∃ st, @Track.speedStatistics equator track = .ok st := by
  have hlength : eastward.length ≤ 2 ^ 63 := by decide
  obtain ⟨tracklets, hsegment, hperm, hseen⟩ :=
    @segment_approved equator _ _ Settings.ofDraft_preset _ uniformTimes_eastward
  obtain rfl := Except.ok.inj (hsegment.symm.trans segment_eastward)
  refine ⟨Settings.ofDraft_preset, uniformTimes_eastward, isBounded_equator, hlength,
    segment_eastward, hperm, ?_⟩
  rintro tracklet hmem
  obtain ⟨track, htrack, hstatistics⟩ := hseen tracklet hmem
  exact ⟨track, htrack, hstatistics isBounded_equator hlength⟩

end Tracklet

end Corridor
