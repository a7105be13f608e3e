import Corridor.Proofs.Coverage
import Corridor.Proofs.Tracklet

/-!
# What a Collection Keeps of Its Pings

A collection drops pings without a place and writes the times of the others anew, all in UTC or
none. Keys and places stay, so that counts and cells are those of the list that was given; and
where times are uniform, the pings of one entity do not depend on the other pings of the list.

## Main results

* `isValid_ofList`: positions are finite, and times uniform and of no region, in every collection.
* `count_keys_ofList`, `mem_touched_ofList`: counts and cells, by the list that was given.
* `filter_ofList`: the pings of one entity are those of any part of the list that holds them.
-/

namespace Corridor

namespace Ping

/-- The ping with its time in UTC, if so told. -/
def restamped (utc : Bool) (p : Ping) : Ping :=
  if utc then { p with time? := p.time?.map Timestamp.toUtc } else p

variable (utc : Bool) (p : Ping)

@[simp] theorem key_restamped : (p.restamped utc).key = p.key := by
  rw [restamped]
  split_ifs <;> rfl

@[simp] theorem position_restamped : (p.restamped utc).position = p.position := by
  rw [restamped]
  split_ifs <;> rfl

@[simp] theorem cellOf_restamped (g : Grid Float) : g.cellOf (p.restamped utc) = g.cellOf p := by
  rw [restamped]
  split_ifs <;> rfl

variable {p}

/-- A ping without a time stays as it is. -/
theorem restamped_of_untimed (h : p.time? = none) : p.restamped utc = p := by
  rw [restamped]
  split_ifs
  · obtain ⟨serial, key, lon, lat, time⟩ := p
    obtain rfl : time = none := h
    rfl
  · rfl

/-- The time, if it is known, is written in UTC, or is naive. -/
def StampedAs (zoned : Bool) (p : Ping) : Prop :=
  ∀ t, p.time? = some t → t.zone? = if zoned then some (.fixed 0) else none

variable {zoned : Bool}

theorem StampedAs.isZoned_eq (h : p.StampedAs zoned) {t : Timestamp} (ht : p.time? = some t) :
    t.isZoned = zoned := by
  rw [Timestamp.isZoned, h t ht]
  cases zoned <;> rfl

/-- Restamping writes a time in UTC, or leaves it naive. -/
theorem stamped_restamped (h : zoned = false → PingCollection.isZoned p = false) :
    (p.restamped zoned).StampedAs zoned := by
  intro t ht
  cases zoned with
  | true =>
      rw [restamped, if_pos rfl] at ht
      obtain ⟨s, -, rfl⟩ := Option.map_eq_some_iff.mp ht
      rfl
  | false =>
      have hnaive := h rfl
      rw [restamped, if_neg (by simp)] at ht
      rw [PingCollection.isZoned, ht] at hnaive
      simpa [Timestamp.isZoned] using hnaive

/-- Times in UTC and naive times are of no region. -/
theorem oneOffset_of_stamped {ps : List Ping} (h : ∀ p ∈ ps, p.StampedAs zoned) :
    OneOffset ps := by
  intro p hp q hq s t hs ht _
  rw [Timestamp.offset, Timestamp.offset, h p hp s hs, h q hq t ht]

end Ping

namespace PingCollection

/-- The pings of a list that have a place. -/
def placed (ps : List Ping) : List Ping := ps.filter fun p => p.position.isFinite

/-- The pings of a collection are those that have a place, restamped if any was zoned. -/
theorem pings_ofList (ps : List Ping) :
    (ofList ps).pings = (placed ps).map (Ping.restamped (ps.any isZoned)) := by
  rw [ofList]
  cases h : ps.any isZoned with
  | true =>
      rw [if_pos rfl]
      rfl
  | false =>
      rw [if_neg (by simp)]
      exact (List.map_id _).symm

/-- Where times are uniform, all pings are restamped if the times are zoned. -/
theorem pings_ofList_of_uniform {ps : List Ping} {zoned : Bool}
    (h : ∀ p ∈ ps, ∀ t, p.time? = some t → t.isZoned = zoned) :
    (ofList ps).pings = (placed ps).map (Ping.restamped zoned) := by
  rw [pings_ofList]
  refine List.map_congr_left fun p hp => ?_
  have hmem : p ∈ ps := (List.mem_filter.mp hp).1
  cases htime : p.time? with
  | none => rw [Ping.restamped_of_untimed _ htime, Ping.restamped_of_untimed _ htime]
  | some t =>
      have hany : ps.any isZoned = zoned := by
        cases zoned with
        | true =>
            refine List.any_eq_true.mpr ⟨p, hmem, ?_⟩
            rw [isZoned, htime]
            exact h p hmem t htime
        | false =>
            rw [List.any_eq_false]
            intro q hq
            rw [isZoned]
            cases hq' : q.time? with
            | none => simp
            | some s => simp [h q hq s hq']
      rw [hany]

/-! ### Validity -/

/-- What every collection keeps: positions are finite, times are all zoned or all naive, and those
of one region have one offset. -/
structure IsValid (c : PingCollection) : Prop where
  finite : ∀ p ∈ c.pings, p.position.isFinite = true
  uniform : Ping.UniformTimes c.pings
  oneOffset : Ping.OneOffset c.pings

/-- The pings of a collection have a place and are stamped as the list that was given tells. -/
theorem stamped_ofList {ps : List Ping} : ∀ p ∈ (ofList ps).pings,
    p.position.isFinite = true ∧ p.StampedAs (ps.any isZoned) := by
  rw [pings_ofList]
  intro p hp
  obtain ⟨q, hq, rfl⟩ := List.mem_map.mp hp
  obtain ⟨hmem, hfinite⟩ := List.mem_filter.mp hq
  refine ⟨by rwa [Ping.position_restamped], Ping.stamped_restamped fun hnone => ?_⟩
  rw [List.any_eq_false] at hnone
  simpa using hnone q hmem

/-- **Collections are valid.** -/
theorem isValid_ofList (ps : List Ping) : (ofList ps).IsValid where
  finite p hp := (stamped_ofList p hp).1
  uniform := ⟨ps.any isZoned, fun p hp _ ht => (stamped_ofList p hp).2.isZoned_eq ht⟩
  oneOffset := Ping.oneOffset_of_stamped fun p hp => (stamped_ofList p hp).2

/-- Comparing the times of a collection is transitive. -/
theorem IsValid.consistent {c : PingCollection} (h : c.IsValid) {ps : List Ping}
    (hsub : ps ⊆ c.pings) : Ping.Consistent (ps.filter Ping.isTimed) :=
  Ping.consistent_of_oneOffset (fun _ hp => (List.mem_filter.mp hp).2)
    (h.oneOffset.mono fun _ hp => hsub (List.mem_filter.mp hp).1)

/-! ### Keys and cells -/

/-- How often a key occurs in a collection. -/
theorem count_keys_ofList (ps : List Ping) (k : String) :
    ((ofList ps).pings.map Ping.key).count k =
      ps.countP fun p => p.position.isFinite && p.key == k := by
  have hkey : Ping.key ∘ Ping.restamped (ps.any isZoned) = Ping.key :=
    funext fun p => Ping.key_restamped _ p
  rw [pings_ofList, List.map_map, hkey, List.count, List.countP_map, placed, List.countP_filter]
  refine List.countP_congr fun p _ => ?_
  simp [and_comm]

/-- The keys of a collection. -/
theorem mem_keys_ofList {ps : List Ping} {k : String} :
    k ∈ (ofList ps).pings.map Ping.key ↔ ∃ p ∈ ps, p.position.isFinite = true ∧ p.key = k := by
  rw [← List.count_pos_iff, count_keys_ofList, List.countP_pos_iff]
  simp

/-- The cells in which a collection shows an entity. -/
theorem mem_touched_ofList {g : Grid Float} {ps : List Ping} {k : String} {c : Cell} :
    c ∈ Coverage.touched g (ofList ps).pings k ↔
      ∃ p ∈ ps, p.position.isFinite = true ∧ p.key = k ∧ g.cellOf p = c := by
  rw [Coverage.mem_touched, pings_ofList]
  simp [placed, and_assoc]

/-- The pings of an entity do not depend on the others, where times are uniform. -/
theorem filter_ofList {ps : List Ping} {keep : Ping → Bool} {k : String}
    (huniform : Ping.UniformTimes ps) (hkeep : ∀ p ∈ ps, p.key = k → keep p = true) :
    ((ofList (ps.filter keep)).pings.filter fun p => p.key == k) =
      (ofList ps).pings.filter fun p => p.key == k := by
  obtain ⟨zoned, hzoned⟩ := huniform
  have hkey : (fun p : Ping => p.key == k) ∘ Ping.restamped zoned = fun p => p.key == k :=
    funext fun p => by rw [Function.comp_apply, Ping.key_restamped]
  rw [pings_ofList_of_uniform hzoned,
    pings_ofList_of_uniform fun p hp => hzoned p (List.mem_filter.mp hp).1,
    List.filter_map, List.filter_map, hkey, placed, placed, List.filter_filter, List.filter_filter,
    List.filter_filter]
  congr 1
  refine List.filter_congr fun p hp => ?_
  by_cases h : p.key = k
  · simp [h, hkeep p hp h]
  · simp [h]

end PingCollection

end Corridor
