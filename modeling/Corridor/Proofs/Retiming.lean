import Corridor.Proofs.Tracklet
import Mathlib.Data.List.FinRange

/-!
# Segmentation Sees Time by Differences

Pings are compared by the difference of their times, and a leg takes that difference. So nothing
changes for segmentation if other times with the same differences take the place of the times. To
say so of two lists of pings, both are read as what stands for positions in them, and segmentation
is carried out on the positions.

Differences stay the same if all times are moved by the same time, as long as the clocks of two
regions are not set forward by different amounts meanwhile; and if times are written at other
offsets from UTC, one for each ping, as long as those of one region had one offset. Without these
conditions they need not: the difference of two times of one region is that of the written times,
and all other differences are those of instants.

## Main results

* `Ping.sameSpans_later`, `Ping.sameSpans_atOffset`: changes of time that keep differences.
* `Leg.duration_eq_of_sameSpans`: legs take the same time.
* `Motion.continues_eq_of_sameSpans`: the test has the same answer.
* `Tracklet.segment_map`: segmentation of what stands for pings.
* `Tracklet.segmentOf_eq_of_sameSpans`: the pings stand for the same positions.
* `Tracklet.segment_of_differences`: the tracklets after a change of all times.
* `Tracklet.segment_spring_autumn`: tracklets that change places where clocks are set.
-/

namespace Corridor

/-! ### Changes of time -/

namespace Timestamp

/-- The zone when the clocks show a given time, if it is told what offset the clocks of a region
have then. -/
def zoneAt (offsetAt : String → ℤ → ℤ) (written : ℤ) : Zone → Zone
  | .fixed offset => .fixed offset
  | .region name _ => .region name (offsetAt name written)

/-- The time some microseconds later by the clocks of its zone. -/
def later (offsetAt : String → ℤ → ℤ) (micros : ℤ) (t : Timestamp) : Timestamp :=
  ⟨t.written + micros, t.zone?.map (zoneAt offsetAt (t.written + micros))⟩

/-- Microseconds by which the clocks of a zone are set forward until a later time. -/
def clockChange (offsetAt : String → ℤ → ℤ) (micros : ℤ) (t : Timestamp) : ℤ :=
  (t.later offsetAt micros).offset - t.offset

/-- The same instant written at another offset, if the time tells one. -/
def atOffset (offset : ℤ) (t : Timestamp) : Timestamp :=
  if t.isZoned then ⟨t.utcMicros + offset, some (.fixed offset)⟩ else t

variable {s t : Timestamp} {offsetAt : String → ℤ → ℤ} {micros : ℤ}

theorem isZoned_later (offsetAt : String → ℤ → ℤ) (micros : ℤ) (t : Timestamp) :
    (t.later offsetAt micros).isZoned = t.isZoned :=
  Option.isSome_map

theorem sameRegion_later :
    (s.later offsetAt micros).sameRegion (t.later offsetAt micros) = s.sameRegion t := by
  obtain ⟨_, _ | ⟨_⟩ | ⟨a, _⟩⟩ := s <;> obtain ⟨_, _ | ⟨_⟩ | ⟨b, _⟩⟩ := t <;> rfl

/-- Two later times are as far apart if they are of one region, or if the clocks of both are set
forward alike. -/
theorem microsTo_later (h : s.sameRegion t = true ∨
    s.clockChange offsetAt micros = t.clockChange offsetAt micros) :
    (s.later offsetAt micros).microsTo (t.later offsetAt micros) = s.microsTo t := by
  rw [microsTo, microsTo, sameRegion_later]
  split_ifs with hregion
  · simp only [later]
    omega
  · have hchange := h.resolve_left hregion
    simp only [clockChange] at hchange
    simp only [utcMicros]
    rw [show (t.later offsetAt micros).written = t.written + micros from rfl,
      show (s.later offsetAt micros).written = s.written + micros from rfl]
    omega

theorem isZoned_atOffset (offset : ℤ) (t : Timestamp) :
    (t.atOffset offset).isZoned = t.isZoned := by
  rw [atOffset]
  split_ifs with hzoned
  · exact hzoned.symm
  · rfl

/-- The instant stays the same. -/
theorem utcMicros_atOffset (offset : ℤ) (t : Timestamp) :
    (t.atOffset offset).utcMicros = t.utcMicros := by
  rw [atOffset]
  split_ifs
  · exact Int.add_sub_cancel _ _
  · rfl

/-- Times written at offsets of their own are of no region. -/
theorem sameRegion_atOffset (y z : ℤ) (s t : Timestamp) :
    (s.atOffset y).sameRegion (t.atOffset z) = false := by
  rw [atOffset, atOffset]
  obtain ⟨_, _ | _⟩ := s <;> obtain ⟨_, _ | _⟩ := t <;> rfl

/-- Times of one offset are as far apart at other offsets. -/
theorem microsTo_atOffset (y z : ℤ) (h : s.sameRegion t = true → s.offset = t.offset) :
    (s.atOffset y).microsTo (t.atOffset z) = s.microsTo t := by
  rw [microsTo_of_offset_eq h, microsTo, sameRegion_atOffset, utcMicros_atOffset,
    utcMicros_atOffset]
  exact if_neg Bool.false_ne_true

end Timestamp

namespace Ping

/-- The pings of one family are at the places of those of another, as many microseconds apart, and
zoned if those are. -/
structure SameSpans {ι : Type} (p q : ι → Ping) : Prop where
  position : ∀ i, (q i).position = (p i).position
  isZoned : ∀ i, (q i).time?.map Timestamp.isZoned = (p i).time?.map Timestamp.isZoned
  microsTo : ∀ i j, (q i).microsTo (q j) = (p i).microsTo (p j)

/-- The same observation with its time changed. -/
def retimed (change : Timestamp → Timestamp) (p : Ping) : Ping :=
  { p with time? := p.time?.map change }

/-- A change of times keeps differences if it does so of any two. -/
theorem sameSpans_retimed {ι : Type} {p : ι → Ping} {change : ι → Timestamp → Timestamp}
    (hzoned : ∀ i t, (change i t).isZoned = t.isZoned)
    (h : ∀ i j s t, (p i).time? = some s → (p j).time? = some t →
      (change i s).microsTo (change j t) = s.microsTo t) :
    SameSpans p fun i => (p i).retimed (change i) := by
  refine ⟨fun i => rfl, fun i => ?_, fun i j => ?_⟩
  · rw [retimed, Option.map_map]
    exact congrArg ((p i).time?.map ·) (funext (hzoned i))
  · have hij := h i j
    rw [microsTo, microsTo, retimed, retimed]
    cases hi : (p i).time? with
    | none => rfl
    | some s => cases hj : (p j).time? with
      | none => rfl
      | some t => exact hij s t hi hj

/-- Where two times are not of one region, the clocks of both are set forward alike. -/
def ClocksAlike (offsetAt : String → ℤ → ℤ) (micros : ℤ) (ps : List Ping) : Prop :=
  ∀ p ∈ ps, ∀ q ∈ ps, ∀ s t, p.time? = some s → q.time? = some t →
    s.sameRegion t = true ∨ s.clockChange offsetAt micros = t.clockChange offsetAt micros

/-- **Moving all times keeps differences** where clocks are set alike. -/
theorem sameSpans_later {ps : List Ping} {offsetAt : String → ℤ → ℤ} {micros : ℤ}
    (h : ClocksAlike offsetAt micros ps) :
    SameSpans ps.get fun i => (ps.get i).retimed (Timestamp.later offsetAt micros) :=
  sameSpans_retimed (fun _ => Timestamp.isZoned_later offsetAt micros) fun i j s t hs ht =>
    Timestamp.microsTo_later (h _ (ps.get_mem i) _ (ps.get_mem j) s t hs ht)

/-- **Writing times at other offsets keeps differences** where those of one region have one
offset. -/
theorem sameSpans_atOffset {ps : List Ping} (h : OneOffset ps) (offset : Fin ps.length → ℤ) :
    SameSpans ps.get fun i => (ps.get i).retimed (Timestamp.atOffset (offset i)) :=
  sameSpans_retimed (fun i => Timestamp.isZoned_atOffset (offset i)) fun i j s t hs ht =>
    Timestamp.microsTo_atOffset _ _ (h _ (ps.get_mem i) _ (ps.get_mem j) s t hs ht)

namespace SameSpans

variable {ι : Type} {p q : ι → Ping} (h : SameSpans p q)
include h

theorem isTimed (i : ι) : (q i).isTimed = (p i).isTimed := by
  have hzoned := congrArg Option.isSome (h.isZoned i)
  rwa [Option.isSome_map, Option.isSome_map] at hzoned

theorem isBefore (i j : ι) : (q i).isBefore (q j) = (p i).isBefore (p j) := by
  rw [Ping.isBefore, Ping.isBefore, h.microsTo]

/-- Both times are unknown, or both are known and zoned alike. -/
theorem time_cases (i : ι) : (p i).time? = none ∧ (q i).time? = none ∨
    ∃ s t, (p i).time? = some s ∧ (q i).time? = some t ∧ t.isZoned = s.isZoned := by
  have hzoned := h.isZoned i
  cases hp : (p i).time? with
  | none =>
      rw [hp] at hzoned
      exact .inl ⟨rfl, Option.map_eq_none_iff.mp hzoned⟩
  | some s =>
      rw [hp] at hzoned
      obtain ⟨t, ht, heq⟩ := Option.map_eq_some_iff.mp hzoned
      exact .inr ⟨s, t, rfl, ht, heq⟩

end SameSpans

end Ping

section

variable {ι : Type} {p q : ι → Ping} (h : Ping.SameSpans p q)
include h

/-- The pings compare if the others do. -/
theorem Ping.comparable_of_sameSpans (is : List ι) :
    comparable (is.map q) = comparable (is.map p) := by
  have hall : ∀ (f : Ping → Bool) (js : List ι), (∀ i, f (q i) = f (p i)) →
      (js.map q).all f = (js.map p).all f := by
    intro f js hf
    rw [List.all_map, List.all_map]
    exact congrArg js.all (funext hf)
  cases is with
  | nil => rfl
  | cons i is => cases is with
    | nil => rfl
    | cons j is =>
        refine congrArg₂ or (hall _ (i :: j :: is) fun k => ?_) (hall _ (i :: j :: is) fun k => ?_)
        · rcases h.time_cases k with ⟨hp, hq⟩ | ⟨s, t, hp, hq, hzoned⟩
          · simp only [hp, hq]
          · simp only [hp, hq, hzoned]
        · rcases h.time_cases k with ⟨hp, hq⟩ | ⟨s, t, hp, hq, hzoned⟩
          · simp only [hp, hq]
          · simp only [hp, hq, hzoned]

/-- **Durations are differences**: legs between the pings take the same time. -/
theorem Leg.duration_eq_of_sameSpans (i j : ι) :
    Leg.duration ⟨q i, q j⟩ = Leg.duration ⟨p i, p j⟩ := by
  have hspan := h.microsTo i j
  rw [Ping.microsTo, Ping.microsTo] at hspan
  rw [Leg.duration, Leg.duration]
  rcases h.time_cases i with ⟨hp, hq⟩ | ⟨s, t, hp, hq, hzoned⟩
  · rw [hp, hq]
  · rcases h.time_cases j with ⟨hp', hq'⟩ | ⟨s', t', hp', hq', hzoned'⟩
    · rw [hp, hq, hp', hq']
    · rw [hp, hq, hp', hq'] at hspan
      dsimp only at hspan
      have hcomparable : t.comparable t' = s.comparable s' := by
        rw [Timestamp.comparable, Timestamp.comparable, hzoned, hzoned']
      have hbetween : t.microsBetween t' = s.microsBetween s' := by
        rw [Timestamp.microsBetween, Timestamp.microsBetween, hcomparable, hspan]
      rw [hp, hq, hp', hq']
      dsimp only
      rw [Timestamp.secondsApart, Timestamp.secondsApart, hbetween]

variable [Geodesy]

theorem Leg.course_eq_of_sameSpans (i j : ι) : Leg.course ⟨q i, q j⟩ = Leg.course ⟨p i, p j⟩ := by
  rw [Leg.course, Leg.course, h.position, h.position]

namespace Motion

/-- Legs between the pings are as plausible. -/
theorem isPlausible_eq_of_sameSpans (limits : MotionLimits) (i j : ι) :
    isPlausible limits ⟨q i, q j⟩ = isPlausible limits ⟨p i, p j⟩ := by
  have hduration := Leg.duration_eq_of_sameSpans h i j
  have hcourse := Leg.course_eq_of_sameSpans h i j
  simp only [isPlausible, Leg.speed, Leg.distance, hduration, hcourse]

/-- They turn at the same rate. -/
theorem turnRate_eq_of_sameSpans (i j k : ι) :
    turnRate ⟨q i, q j⟩ ⟨q j, q k⟩ = turnRate ⟨p i, p j⟩ ⟨p j, p k⟩ := by
  have hheading : ∀ i j, Leg.heading ⟨q i, q j⟩ = Leg.heading ⟨p i, p j⟩ := fun i j =>
    congrArg Geodesic.Course.heading (Leg.course_eq_of_sameSpans h i j)
  have hchange : headingChange ⟨q i, q j⟩ ⟨q j, q k⟩ = headingChange ⟨p i, p j⟩ ⟨p j, p k⟩ := by
    rw [headingChange, headingChange, hheading i j, hheading j k]
  rw [turnRate, turnRate, hchange, Leg.duration_eq_of_sameSpans h i j,
    Leg.duration_eq_of_sameSpans h j k]

/-- **The test has the same answer.** -/
theorem continues_eq_of_sameSpans (limits : MotionLimits) :
    Partition.standing (continues limits) q = Partition.standing (continues limits) p := by
  funext group k
  rw [Partition.standing, Partition.standing, continues, continues, ← List.map_reverse,
    ← List.map_reverse]
  cases group.reverse with
  | nil => rfl
  | cons j rest => cases rest with
    | nil => simp only [List.map_cons, List.map_nil, isPlausible_eq_of_sameSpans h]
    | cons i _ =>
        simp only [List.map_cons, isPlausible_eq_of_sameSpans h, turnRate_eq_of_sameSpans h]

end Motion

end

/-! ### Segmentation of positions -/

namespace Tracklet

section

variable [Geodesy] (limits : MotionLimits) {ι : Type}

/-- The tracklets of what stands for pings. -/
def segmentOf (p : ι → Ping) (is : List ι) : Except Fault (List (List ι)) :=
  let timed := is.filter (Ping.isTimed ∘ p)
  if Ping.comparable (timed.map p) then
    Partition.greedy (Partition.standing (Motion.continues limits) p)
      (Sorting.sort (fun i j => (p i).isBefore (p j)) timed)
  else .error .timesNotComparable

/-- **Segmentation sees of a position only the ping there.** -/
theorem segment_map (p : ι → Ping) (is : List ι) :
    segment limits (is.map p) = (segmentOf limits p is).map (List.map (List.map p)) := by
  rw [segment, segmentOf, List.filter_map, Ping.inOrder]
  split_ifs
  · rw [Sorting.sort_map]
    exact Partition.greedy_map p _
  · rfl

/-- **The pings stand for the same positions.** -/
theorem segmentOf_eq_of_sameSpans {p q : ι → Ping} (h : Ping.SameSpans p q) (is : List ι) :
    segmentOf limits q is = segmentOf limits p is := by
  have htimed : Ping.isTimed ∘ q = Ping.isTimed ∘ p := funext h.isTimed
  have hbefore : (fun i j => (q i).isBefore (q j)) = fun i j => (p i).isBefore (p j) :=
    funext fun i => funext (h.isBefore i)
  simp only [segmentOf]
  rw [htimed, hbefore, Ping.comparable_of_sameSpans h, Motion.continues_eq_of_sameSpans h]

variable {limits}

/-- Every position of a timed ping stands in one tracklet. -/
theorem perm_of_segmentOf {p : ι → Ping} {is : List ι} {groups : List (List ι)}
    (h : segmentOf limits p is = .ok groups) :
    groups.flatten.Perm (is.filter (Ping.isTimed ∘ p)) := by
  simp only [segmentOf] at h
  split_ifs at h
  rw [(Partition.isGreedy_of_greedy h).flatten_eq]
  exact Sorting.sort_perm _

/-- Pings with uniform times have tracklets of positions. -/
theorem exists_segmentOf (limits : MotionLimits) {p : ι → Ping} {is : List ι}
    (h : Ping.UniformTimes (is.map p)) : ∃ groups, segmentOf limits p is = .ok groups := by
  obtain ⟨_, _, -, -, hsegment, -⟩ := exists_segment limits h
  rw [segment_map] at hsegment
  cases hgroups : segmentOf limits p is with
  | ok groups => exact ⟨groups, rfl⟩
  | error f =>
      rw [hgroups] at hsegment
      cases hsegment

end

/-- **Segmentation depends on time only through differences.** The tracklets of pings with uniform
times are tracklets of positions in the list, and every position of a timed ping stands in one of
them. The positions are the same for all pings at the same places with the same differences of
times. So they are after all times are moved by the same time, if the clocks of two regions are set
alike; and after every zoned time is written at an offset of its own, if the times of one region
had one offset. -/
theorem segment_of_differences [Geodesy] (limits : MotionLimits) {ps : List Ping}
    (h : Ping.UniformTimes ps) :
    ∃ groups : List (List (Fin ps.length)),
      groups.flatten.Perm ((List.finRange ps.length).filter fun i => (ps.get i).isTimed) ∧
      segment limits ps = .ok (groups.map (List.map ps.get)) ∧
      (∀ q : Fin ps.length → Ping, Ping.SameSpans ps.get q →
        segment limits (List.ofFn q) = .ok (groups.map (List.map q))) ∧
      (∀ (offsetAt : String → ℤ → ℤ) (micros : ℤ), Ping.ClocksAlike offsetAt micros ps →
        segment limits (ps.map (Ping.retimed (Timestamp.later offsetAt micros))) =
          .ok (groups.map (List.map fun i =>
            (ps.get i).retimed (Timestamp.later offsetAt micros)))) ∧
      (Ping.OneOffset ps → ∀ offset : Fin ps.length → ℤ,
        segment limits (List.ofFn fun i => (ps.get i).retimed (Timestamp.atOffset (offset i))) =
          .ok (groups.map (List.map fun i =>
            (ps.get i).retimed (Timestamp.atOffset (offset i))))) := by
  have hget : (List.finRange ps.length).map ps.get = ps := List.map_get_finRange ps
  obtain ⟨groups, hgroups⟩ := exists_segmentOf limits (hget.symm ▸ h)
  have hsame : ∀ q : Fin ps.length → Ping, Ping.SameSpans ps.get q →
      segment limits (List.ofFn q) = .ok (groups.map (List.map q)) := by
    intro q hq
    rw [List.ofFn_eq_map, segment_map, segmentOf_eq_of_sameSpans limits hq, hgroups]
    rfl
  refine ⟨groups, perm_of_segmentOf hgroups, ?_, hsame, fun offsetAt micros hclocks => ?_,
    fun honeOffset offset => hsame _ (Ping.sameSpans_atOffset honeOffset offset)⟩
  · have hsegment := segment_map limits ps.get (List.finRange ps.length)
    rw [hget, hgroups] at hsegment
    exact hsegment
  · rw [← hsame _ (Ping.sameSpans_later hclocks), List.ofFn_eq_map]
    conv_lhs => rw [← hget, List.map_map]
    rfl

/-- Three observations in the reverse order of time, of which the first is written at an offset and
the second by the clocks of a region. -/
def abroad : List Ping :=
  [⟨0, "a", 0, 0, some ⟨3605000000, some (.fixed 3600000000)⟩⟩,
    ⟨1, "a", 0, 1, some ⟨3603000000, some (.region "R" 3600000000)⟩⟩,
    ⟨2, "a", 0, 2, some ⟨1000000, some (.fixed 0)⟩⟩]

theorem segment_of_differences_abroad : ∃ groups : List (List (Fin 3)),
    segment ⟨.whole 60, .whole 10, .whole 5⟩ abroad = .ok (groups.map (List.map abroad.get)) ∧
    segment ⟨.whole 60, .whole 10, .whole 5⟩
        (abroad.map (Ping.retimed (Timestamp.later (fun _ _ => 3600000000) 500000))) =
      .ok (groups.map (List.map fun i =>
        (abroad.get i).retimed (Timestamp.later (fun _ _ => 3600000000) 500000))) ∧
    segment ⟨.whole 60, .whole 10, .whole 5⟩
        (List.ofFn fun i => (abroad.get i).retimed (Timestamp.atOffset (i * 7200000000))) =
      .ok (groups.map (List.map fun i =>
        (abroad.get i).retimed (Timestamp.atOffset (i * 7200000000)))) := by
  have huniform : Ping.UniformTimes abroad := by
    refine ⟨true, fun p hp t ht => ?_⟩
    simp only [abroad, List.mem_cons, List.not_mem_nil, or_false] at hp
    rcases hp with rfl | rfl | rfl <;> cases ht <;> rfl
  have hclocks : Ping.ClocksAlike (fun _ _ => 3600000000) 500000 abroad := by
    intro p hp q hq s t hs ht
    simp only [abroad, List.mem_cons, List.not_mem_nil, or_false] at hp hq
    refine .inr ?_
    rcases hp with rfl | rfl | rfl <;> rcases hq with rfl | rfl | rfl <;> cases hs <;> cases ht <;>
      rfl
  have honeOffset : Ping.OneOffset abroad := by
    intro p hp q hq s t hs ht hregion
    simp only [abroad, List.mem_cons, List.not_mem_nil, or_false] at hp hq
    rcases hp with rfl | rfl | rfl <;> rcases hq with rfl | rfl | rfl <;> cases hs <;> cases ht <;>
      first | rfl | exact absurd hregion (by decide)
  obtain ⟨groups, -, hsegment, -, hlater, hoffset⟩ :=
    segment_of_differences ⟨.whole 60, .whole 10, .whole 5⟩ huniform
  exact ⟨groups, hsegment, hlater _ _ hclocks, hoffset honeOffset fun i => i * 7200000000⟩

/-- The offset of clocks that are set forward from one hour ahead of UTC to two at the end of March
in 2024. -/
def summerTime (_ : String) (written : ℤ) : ℤ :=
  if written < Ping.civil 2024 3 31 2 0 then 3600000000 else 7200000000

/-- On the day before, a time in UTC and a later one by those clocks. -/
def spring : List Ping :=
  [.clocked 0 (Ping.civil 2024 3 30 11 30) (.fixed 0),
    .clocked 1 (Ping.civil 2024 3 30 13 0) (.region "R" 3600000000)]

/-- Two times of the night in which they are set back, the first before and the second after it. -/
def autumn : List Ping :=
  [.clocked 0 (Ping.civil 2024 10 27 2 50) (.region "R" 7200000000),
    .clocked 1 (Ping.civil 2024 10 27 2 10) (.region "R" 3600000000)]

/-- The day after, the clocks have been set forward, and the second time is the earlier one. -/
def springLater : List Ping := spring.map (Ping.retimed (Timestamp.later summerTime 86400000000))

/-- The instants of both, of which the first is the earlier one. -/
def autumnAbroad : List Ping := autumn.map (Ping.retimed (Timestamp.atOffset 0))

/-- **Where clocks are set**, tracklets change places if all times are moved by a day, or written
in UTC. -/
theorem segment_spring_autumn :
    segment ⟨.whole 1, .whole 1000, .whole 10⟩ spring = .ok [[spring[0]], [spring[1]]] ∧
    segment ⟨.whole 1, .whole 1000, .whole 10⟩ springLater =
      .ok [[springLater[1]], [springLater[0]]] ∧
    segment ⟨.whole 1, .whole 1000, .whole 10⟩ autumn = .ok [[autumn[1]], [autumn[0]]] ∧
    segment ⟨.whole 1, .whole 1000, .whole 10⟩ autumnAbroad =
      .ok [[autumnAbroad[0]], [autumnAbroad[1]]] := by
  have hspring : Sorting.sort Ping.isBefore spring = spring :=
    Sorting.sort_of_isChain (by decide +kernel)
  have hspringLater : Sorting.sort Ping.isBefore springLater =
      [springLater[1], springLater[0]] := by cbv
  have hautumn : Sorting.sort Ping.isBefore autumn = [autumn[1], autumn[0]] := by cbv
  have hautumnAbroad : Sorting.sort Ping.isBefore autumnAbroad = autumnAbroad :=
    Sorting.sort_of_isChain (by decide +kernel)
  have htimed : ∀ p ∈ spring ++ springLater ++ autumn ++ autumnAbroad, p.TimedAs true := by
    decide +kernel
  simp only [List.forall_mem_append] at htimed
  obtain ⟨⟨⟨htimed₁, htimed₂⟩, htimed₃⟩, htimed₄⟩ := htimed
  refine ⟨segment_of_gaps htimed₁ hspring ?_, segment_of_gaps htimed₂ hspringLater ?_,
    segment_of_gaps htimed₃ hautumn ?_, segment_of_gaps htimed₄ hautumnAbroad ?_⟩
  all_goals decide +kernel

end Tracklet

end Corridor
