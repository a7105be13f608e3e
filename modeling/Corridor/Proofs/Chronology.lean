import Corridor.Ping
import Corridor.Proofs.Sorting

/-!
# The Order of Time

Pings are put in order by comparing their times, and a leg takes the time from one to the other;
both are the same difference, which is one of written times if the two are of one region, and one
of instants otherwise. It changes its sign if the two times change places, so no time comes before
one that comes before it, and sorting leaves no two neighbours out of order.

Comparing is transitive where no two times of one region differ in their offsets, and the order is
that of the instants; and it is among the times of one region, in the order in which they are
written. It need not be among all times.

## Main results

* `microsTo_eq_of_oneOffset`: where differences are those of instants.
* `consistent_of_oneOffset`, `consistent_of_oneRegion`: where comparing is transitive.
* `isSorted_sort`: what there is to pings in order.
* `not_consistent_night`: times of which comparing is not transitive.
-/

namespace Corridor

namespace Timestamp

theorem sameRegion_comm (s t : Timestamp) : t.sameRegion s = s.sameRegion t := by
  obtain ⟨_, _ | ⟨_⟩ | ⟨a, _⟩⟩ := s <;> obtain ⟨_, _ | ⟨_⟩ | ⟨b, _⟩⟩ := t <;> try rfl
  simp [sameRegion, Zone.sameRegion, eq_comm]

/-- Differences change their sign if the times change places. -/
theorem microsTo_comm (s t : Timestamp) : t.microsTo s = -s.microsTo t := by
  rw [microsTo, microsTo, sameRegion_comm]
  split_ifs
  · omega
  · omega

/-- Times of one offset differ by what is between the instants. -/
theorem microsTo_of_offset_eq {s t : Timestamp} (h : s.sameRegion t = true → s.offset = t.offset) :
    s.microsTo t = t.utcMicros - s.utcMicros := by
  rw [microsTo, utcMicros, utcMicros]
  split_ifs with hregion
  · rw [h hregion]
    omega
  · rfl

end Timestamp

/-! ### Times that compare -/

namespace Ping

/-- The times of the pings, where they are known, are all zoned or all naive. -/
def UniformTimes (ps : List Ping) : Prop :=
  ∃ zoned : Bool, ∀ p ∈ ps, ∀ t, p.time? = some t → t.isZoned = zoned

theorem UniformTimes.mono {ps qs : List Ping} (h : UniformTimes ps) (hsub : qs ⊆ ps) :
    UniformTimes qs := by
  obtain ⟨zoned, hzoned⟩ := h
  exact ⟨zoned, fun p hp => hzoned p (hsub hp)⟩

/-- The time is known, and zoned or naive as told. -/
def TimedAs (zoned : Bool) (p : Ping) : Prop := ∃ t, p.time? = some t ∧ t.isZoned = zoned

instance (zoned : Bool) (p : Ping) : Decidable (p.TimedAs zoned) :=
  decidable_of_iff (p.time?.map Timestamp.isZoned = some zoned) Option.map_eq_some_iff

theorem uniformTimes_of_timedAs {zoned : Bool} {ps : List Ping} (h : ∀ p ∈ ps, TimedAs zoned p) :
    UniformTimes ps := by
  refine ⟨zoned, fun p hp t ht => ?_⟩
  obtain ⟨s, hs, hzoned⟩ := h p hp
  obtain rfl := Option.some.inj (ht.symm.trans hs)
  exact hzoned

/-- All pings with known times are timed. -/
theorem filter_isTimed {zoned : Bool} {ps : List Ping} (h : ∀ p ∈ ps, TimedAs zoned p) :
    ps.filter isTimed = ps := by
  refine List.filter_eq_self.mpr fun p hp => ?_
  obtain ⟨t, ht, -⟩ := h p hp
  exact Option.isSome_of_eq_some ht

/-- Known times that are all zoned or all naive compare. -/
theorem comparable_of_timedAs {zoned : Bool} {ps : List Ping} (h : ∀ p ∈ ps, TimedAs zoned p) :
    comparable ps = true := by
  match ps with
  | [] | [_] => rfl
  | p :: q :: ps =>
      simp only [comparable]
      rw [Bool.or_eq_true, List.all_eq_true, List.all_eq_true]
      cases zoned with
      | true =>
          refine .inl fun r hr => ?_
          obtain ⟨t, ht, hz⟩ := h r hr
          rw [ht]
          exact hz
      | false =>
          refine .inr fun r hr => ?_
          obtain ⟨t, ht, hz⟩ := h r hr
          rw [ht]
          simp [hz]

/-! ### Differences -/

/-- The time in UTC on a scale of microseconds; an unknown time stands at the start. -/
def instant (p : Ping) : ℤ := match p.time? with
  | some t => t.utcMicros
  | none => 0

/-- Differences change their sign if the pings change places. -/
theorem microsTo_comm (p q : Ping) : q.microsTo p = -p.microsTo q := by
  rw [microsTo, microsTo]
  cases p.time? with
  | none => cases q.time? <;> rfl
  | some s => cases q.time? with
    | none => rfl
    | some t => exact Timestamp.microsTo_comm s t

theorem isBefore_eq_true_iff {p q : Ping} : p.isBefore q = true ↔ 0 < p.microsTo q :=
  decide_eq_true_iff

theorem isBefore_eq_false_iff {p q : Ping} : q.isBefore p = false ↔ 0 ≤ p.microsTo q := by
  rw [isBefore, decide_eq_false_iff_not, microsTo_comm]
  omega

/-- No time comes before one that comes before it. -/
theorem isAsymmetric_isBefore : Sorting.IsAsymmetric isBefore := by
  intro p q h
  rw [isBefore_eq_true_iff] at h
  rw [isBefore_eq_false_iff]
  omega

/-- Neither of two pings is before the other if no time lies between them. -/
theorem tie_isBefore_eq_false_iff {p q : Ping} :
    Sorting.tie isBefore p q = false ↔ p.microsTo q ≠ 0 := by
  rw [← Bool.not_eq_true, Sorting.tie_eq_true_iff, isBefore_eq_false_iff, isBefore_eq_false_iff,
    microsTo_comm]
  omega

/-- Times of one region have one offset. -/
def OneOffset (ps : List Ping) : Prop :=
  ∀ p ∈ ps, ∀ q ∈ ps, ∀ s t, p.time? = some s → q.time? = some t → s.sameRegion t = true →
    s.offset = t.offset

theorem OneOffset.mono {ps qs : List Ping} (h : OneOffset ps) (hsub : qs ⊆ ps) : OneOffset qs :=
  fun p hp q hq => h p (hsub hp) q (hsub hq)

/-- All times are of one region. -/
def OneRegion (ps : List Ping) : Prop :=
  ∀ p ∈ ps, ∀ q ∈ ps, ∀ s t, p.time? = some s → q.time? = some t → s.sameRegion t = true

/-- **Where times of one region have one offset, differences are those of instants.** -/
theorem microsTo_eq_of_oneOffset {ps : List Ping} (h : OneOffset ps) {p q : Ping} (hp : p ∈ ps)
    (hq : q ∈ ps) (hpt : p.isTimed = true) (hqt : q.isTimed = true) :
    p.microsTo q = q.instant - p.instant := by
  obtain ⟨s, hs⟩ := Option.isSome_iff_exists.mp hpt
  obtain ⟨t, ht⟩ := Option.isSome_iff_exists.mp hqt
  rw [microsTo, instant, instant, hs, ht]
  exact Timestamp.microsTo_of_offset_eq (h p hp q hq s t hs ht)

/-! ### Consistent times -/

/-- Comparing the times of the pings is transitive. -/
def Consistent (ps : List Ping) : Prop := Sorting.IsConsistent isBefore ps

/-- Comparing is transitive where times of one region have one offset. -/
theorem consistent_of_oneOffset {ps : List Ping} (htimed : ∀ p ∈ ps, p.isTimed = true)
    (h : OneOffset ps) : Consistent ps := by
  refine Sorting.isConsistent_of_scale instant fun p hp q hq => ?_
  rw [isBefore_eq_true_iff, microsTo_eq_of_oneOffset h hp hq (htimed p hp) (htimed q hq)]
  omega

/-- Comparing is transitive where times are of one region. -/
theorem consistent_of_oneRegion {ps : List Ping} (htimed : ∀ p ∈ ps, p.isTimed = true)
    (h : OneRegion ps) : Consistent ps := by
  refine Sorting.isConsistent_of_scale (fun p => (p.time?.map Timestamp.written).getD 0)
    fun p hp q hq => ?_
  obtain ⟨s, hs⟩ := Option.isSome_iff_exists.mp (htimed p hp)
  obtain ⟨t, ht⟩ := Option.isSome_iff_exists.mp (htimed q hq)
  rw [isBefore_eq_true_iff, microsTo, hs, ht]
  dsimp only [Option.map_some, Option.getD_some]
  rw [Timestamp.microsTo, if_pos (h p hp q hq s t hs ht)]
  omega

/-! ### Pings in order -/

/-- The pings of a list in order, those of one time in the order of the list. -/
abbrev IsStableSort (ps sorted : List Ping) : Prop := Sorting.IsStableSort isBefore ps sorted

/-- What there is to the pings of a list in order of time. -/
structure IsSorted (ps sorted : List Ping) : Prop where
  perm : sorted.Perm ps
  /-- No ping is before the one in front of it. -/
  neighbours : sorted.IsChain fun p q => q.isBefore p = false
  /-- Where comparing is transitive, this is the stable sort. -/
  stable : Consistent ps → IsStableSort ps sorted

/-- **Pings are sorted by comparing their times.** -/
theorem isSorted_sort (ps : List Ping) : IsSorted ps (Sorting.sort isBefore ps) := by
  refine ⟨Sorting.sort_perm ps, ?_, Sorting.isStableSort_sort isAsymmetric_isBefore⟩
  exact (Sorting.isChain_sort isAsymmetric_isBefore ps).imp fun _ _ =>
    Sorting.notAfter_eq_true_iff.mp

/-- Pings that compare are put in order. -/
theorem inOrder_of_timedAs {zoned : Bool} {ps : List Ping} (h : ∀ p ∈ ps, TimedAs zoned p) :
    inOrder ps = .ok (Sorting.sort isBefore ps) := if_pos (comparable_of_timedAs h)

/-- Pings that compare and are in order are put in order as they are. -/
theorem inOrder_of_isChain {zoned : Bool} {ps : List Ping} (htimed : ∀ p ∈ ps, TimedAs zoned p)
    (h : ps.IsChain fun p q => q.isBefore p = false) : inOrder ps = .ok ps := by
  rw [inOrder_of_timedAs htimed, Sorting.sort_of_isChain]
  exact h.imp fun _ _ => Sorting.notAfter_eq_true_iff.mpr

/-! ### A night in which clocks are set back -/

/-- The written time at an hour and a minute of a date. -/
def civil (year month day hour minute : ℕ) : ℤ :=
  ((Calendar.dayNumber year month day * 24 + hour) * 60 + minute : ℕ) * 60000000

/-- A ping at a written time by the clocks of a zone. -/
def clocked (serial : ℕ) (written : ℤ) (zone : Zone) : Ping :=
  ⟨serial, "a", 0, 0, some ⟨written, some zone⟩⟩

/-- Two times of a region, before and after its clocks are set back from three to two, and two times
in UTC. -/
def night : List Ping :=
  [clocked 0 (civil 2024 10 27 2 53) (.region "R" 7200000000),
    clocked 1 (civil 2024 10 27 2 17) (.region "R" 3600000000),
    clocked 2 (civil 2024 10 27 1 32) (.fixed 0), clocked 3 (civil 2024 10 27 1 14) (.fixed 0)]

/-- The second time comes before the first, the first before the last, and the last before the
second. -/
theorem not_consistent_night : ¬ Consistent night := by
  rw [Consistent]
  decide +kernel

end Ping

end Corridor
