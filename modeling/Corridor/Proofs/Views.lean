import Corridor.Proofs.Collection

/-!
# What a Collection Shows

A collection is read in three ways: the pings of each entity, how often each entity occurs, and
how often it occurs in each cell of a grid. Each is computed on its own, and a collection that is
restricted to shapes is built anew, which decides again whether times are zoned. All the same
they stay views of one list: of the pings that were given, those that have a place and pass every
restriction (`kept`).

What carries this through the restrictions is that the times of a collection are written in UTC
or are all naive (`Ping.StampedAs`); pings of which this holds are left as they are when a
collection is built of them.

## Main results

* `ofList_of_stamped`: building a collection of the pings of a collection changes nothing.
* `pings_restricted`: the pings after any number of restrictions.
* `shows_restricted`: all views of a collection are views of the list that is kept.
-/

namespace Corridor

namespace Ping

variable {zoned : Bool} {p : Ping}

/-- A time that is written in UTC stays as it is. -/
theorem restamped_of_stamped {utc : Bool} (h : p.StampedAs zoned)
    (hutc : utc = true → zoned = true) : p.restamped utc = p := by
  cases utc with
  | false =>
      rw [restamped, if_neg (by simp)]
  | true =>
      obtain rfl := hutc rfl
      obtain ⟨serial, key, lon, lat, time⟩ := p
      rw [restamped, if_pos rfl]
      cases time with
      | none => rfl
      | some t =>
          obtain ⟨written, zone⟩ := t
          obtain rfl : zone = some (.fixed 0) := h _ rfl
          simp [Timestamp.toUtc, Timestamp.utcMicros, Timestamp.offset, Zone.offset]

/-- A ping of a collection, against the ping that was given: only the time may be written anew. -/
structure Keeps (zoned : Bool) (given shown : Ping) : Prop where
  key : shown.key = given.key
  lon : shown.lon = given.lon
  lat : shown.lat = given.lat
  /-- A time is there exactly where one was given, and denotes the same instant, a naive one being
  read as UTC. -/
  instant : shown.time?.map Timestamp.utcMicros = given.time?.map Timestamp.utcMicros
  /-- Times are all in UTC, or they are naive and stay as they are. -/
  time : if zoned then shown.StampedAs true else shown.time? = given.time?

theorem keeps_restamped (zoned : Bool) (p : Ping) : Keeps zoned p (p.restamped zoned) := by
  cases zoned with
  | false =>
      rw [restamped, if_neg (by simp)]
      exact ⟨rfl, rfl, rfl, rfl, rfl⟩
  | true =>
      refine ⟨rfl, rfl, rfl, ?_, ?_⟩
      · rw [restamped, if_pos rfl, Option.map_map]
        refine congrArg (Option.map · p.time?) (funext fun t => ?_)
        simp [Timestamp.toUtc, Timestamp.utcMicros, Timestamp.offset, Zone.offset]
      · rw [if_pos rfl]
        exact stamped_restamped (by simp)

end Ping

namespace PingCollection

variable {zoned : Bool}

/-! ### Building anew -/

/-- **Building anew changes nothing** in the pings of a collection. -/
theorem ofList_of_stamped {qs : List Ping} (hfinite : ∀ p ∈ qs, p.position.isFinite = true)
    (hstamped : ∀ p ∈ qs, p.StampedAs zoned) : (ofList qs).pings = qs := by
  have hzoned : qs.any isZoned = true → zoned = true := by
    intro hany
    obtain ⟨p, hp, hpz⟩ := List.any_eq_true.mp hany
    rw [isZoned] at hpz
    cases htime : p.time? with
    | none =>
        rw [htime] at hpz
        cases hpz
    | some t =>
        rw [htime, Option.any_some, (hstamped p hp).isZoned_eq htime] at hpz
        exact hpz
  rw [pings_ofList, placed, List.filter_eq_self.mpr hfinite]
  refine (List.map_congr_left fun p hp => ?_).trans (List.map_id qs)
  exact Ping.restamped_of_stamped (hstamped p hp) hzoned

/-! ### Restrictions -/

/-- Whether one of the shapes that are there and not empty covers a ping. -/
def passes (shapes : List (Option Shape)) (p : Ping) : Bool :=
  (Shape.present shapes).any fun s => s.covers p.position

/-- Of the pings that were given, those that have a place and pass every restriction. -/
def kept (ps : List Ping) (steps : List (List (Option Shape))) : List Ping :=
  ps.filter fun p => p.position.isFinite && steps.all fun shapes => passes shapes p

/-- The collection after all restrictions, in turn. -/
def restricted (ps : List Ping) (steps : List (List (Option Shape))) : PingCollection :=
  steps.foldl within (ofList ps)

/-- One restriction drops pings and changes none. -/
theorem pings_within {c : PingCollection} (h : ∀ p ∈ c.pings,
    p.position.isFinite = true ∧ p.StampedAs zoned) (shapes : List (Option Shape)) :
    (c.within shapes).pings = c.pings.filter (passes shapes) := by
  have hmem : ∀ p ∈ c.pings.filter (passes shapes), p ∈ c.pings := fun p hp =>
    (List.mem_filter.mp hp).1
  exact ofList_of_stamped (fun p hp => (h p (hmem p hp)).1) fun p hp => (h p (hmem p hp)).2

/-- Restrictions drop pings and change none. -/
theorem pings_foldl_within {c : PingCollection} (h : ∀ p ∈ c.pings,
    p.position.isFinite = true ∧ p.StampedAs zoned) (steps : List (List (Option Shape))) :
    (steps.foldl within c).pings =
      c.pings.filter fun p => steps.all fun shapes => passes shapes p := by
  induction steps generalizing c with
  | nil => exact (List.filter_eq_self.mpr fun _ _ => rfl).symm
  | cons shapes steps ih =>
      have hstep := pings_within h shapes
      have hmem : ∀ p ∈ (c.within shapes).pings,
          p.position.isFinite = true ∧ p.StampedAs zoned := by
        rw [hstep]
        exact fun p hp => h p (List.mem_filter.mp hp).1
      rw [List.foldl_cons, ih hmem, hstep, List.filter_filter]
      refine List.filter_congr fun p _ => ?_
      rw [List.all_cons, Bool.and_comm]

/-- **The pings after any number of restrictions** are those that are kept, stamped as the list
that was given tells. -/
theorem pings_restricted (ps : List Ping) (steps : List (List (Option Shape))) :
    (restricted ps steps).pings = (kept ps steps).map (Ping.restamped (ps.any isZoned)) := by
  have hpasses : ∀ shapes, passes shapes ∘ Ping.restamped (ps.any isZoned) = passes shapes :=
    fun shapes => funext fun p => by
      rw [Function.comp_apply, passes, Ping.position_restamped, passes]
  rw [restricted, pings_foldl_within stamped_ofList, pings_ofList, List.filter_map, placed,
    List.filter_filter, kept]
  congr 1
  refine List.filter_congr fun p _ => ?_
  rw [Function.comp_apply, Bool.and_comm]
  congr 1
  refine congrArg (List.all steps) (funext fun shapes => ?_)
  exact congrFun (hpasses shapes) p

/-! ### Views -/

/-- All that a collection shows is that of one list. -/
structure Shows (c : PingCollection) (zoned : Bool) (qs : List Ping) : Prop where
  size : c.size = qs.length
  /-- The pings of each entity in the order of the list, entities in order of first appearance,
  and how many there are of each. -/
  groups : ∃ groups, c.groups = .ok groups ∧ groups.keys = (qs.map Ping.key).eraseDups ∧
    (∀ k g, groups.get? k = some g →
      List.Forall₂ (Ping.Keeps zoned) (qs.filter fun p => p.key == k) g) ∧
    ∀ k, c.countKeys.get? k = (groups.get? k).map List.length
  /-- How many pings of an entity lie in a cell, for those of which any does, and no other cells. -/
  cells : ∀ grid : Grid Float, ∃ counts, c.gridCounts grid = .ok counts ∧
    (∀ cell k, (counts.get? cell).bind (Catalog.get? · k) =
      if Coverage.visits grid qs k cell = 0 then none
      else some (Coverage.visits grid qs k cell)) ∧
    ∀ cell m, counts.get? cell = some m → m.keys ≠ []

/-- A time that denotes a time of the years 1 to 9999 in UTC can be told. -/
theorem isTellable_restamped {p : Ping} (hnaive : zoned = false → isZoned p = false)
    (h : ∀ t, p.time? = some t → 0 ≤ t.utcMicros ∧ t.utcMicros < Timestamp.bound) :
    isTellable (p.restamped zoned) = true := by
  rw [isTellable]
  cases htime : (p.restamped zoned).time? with
  | none => rfl
  | some s =>
      have hkeeps := (Ping.keeps_restamped zoned p).instant
      rw [htime, Option.map_some] at hkeeps
      obtain ⟨t, ht, hst⟩ := Option.map_eq_some_iff.mp hkeeps.symm
      have hstamped := Ping.stamped_restamped hnaive s htime
      have hwritten : s.written = s.utcMicros := by
        rw [Timestamp.utcMicros, Timestamp.offset, hstamped]
        cases zoned <;> simp [Zone.offset]
      obtain ⟨hlow, hhigh⟩ := h t ht
      simp only [Option.all_some, Timestamp.inRange, Bool.and_eq_true, decide_eq_true_eq]
      omega

/-- The visits of an entity do not depend on how times are written. -/
theorem visits_restamped (grid : Grid Float) (qs : List Ping) (k : String) (cell : Cell) :
    Coverage.visits grid (qs.map (Ping.restamped zoned)) k cell =
      Coverage.visits grid qs k cell := by
  rw [Coverage.visits, Coverage.visits, List.countP_map]
  refine List.countP_congr fun p _ => ?_
  rw [Function.comp_apply, Ping.key_restamped, Ping.cellOf_restamped]

/-- The counts of a table by cell and key, without zeros and without empty cells. -/
theorem get?_table (grid : Grid Float) (ps : List Ping) :
    (∀ cell k, ((Coverage.table grid ps).get? cell).bind (Catalog.get? · k) =
      if Coverage.visits grid ps k cell = 0 then none
      else some (Coverage.visits grid ps k cell)) ∧
    ∀ cell m, (Coverage.table grid ps).get? cell = some m → m.keys ≠ [] := by
  have hcell : ∀ cell, (Coverage.table grid ps).get? cell =
      if ∃ p ∈ ps, grid.cellOf p = cell then some (Catalog.tally (Coverage.keysIn grid ps cell))
      else none := by
    intro cell
    rw [Coverage.table, Catalog.get?_tabulate]
    simp
  constructor
  · intro cell k
    rw [hcell]
    by_cases hvisits : Coverage.visits grid ps k cell = 0
    · rw [if_pos hvisits]
      split_ifs with hany
      · rw [Option.bind_some, Catalog.get?_tally, if_neg]
        intro hk
        have hpos := Coverage.visits_pos_iff.mpr (Coverage.mem_keysIn.mp hk)
        omega
      · rfl
    · have htouched := Coverage.visits_pos_iff.mp (Nat.pos_of_ne_zero hvisits)
      obtain ⟨p, hp, -, hpc⟩ := Coverage.mem_touched.mp htouched
      rw [if_neg hvisits, if_pos ⟨p, hp, hpc⟩, Option.bind_some, Catalog.get?_tally,
        if_pos (Coverage.mem_keysIn.mpr htouched), Coverage.count_keysIn]
  · intro cell m hm
    rw [hcell] at hm
    split_ifs at hm with hany
    obtain rfl := Option.some.inj hm
    obtain ⟨p, hp, hpc⟩ := hany
    have hmem : p.key ∈ Coverage.keysIn grid ps cell :=
      Coverage.mem_keysIn.mpr (Coverage.mem_touched.mpr ⟨p, hp, rfl, hpc⟩)
    rw [Catalog.tally, Catalog.keys_tabulate]
    exact List.ne_nil_of_mem (List.mem_eraseDups.mpr hmem)

theorem mem_kept {ps : List Ping} {steps : List (List (Option Shape))} {p : Ping}
    (hp : p ∈ kept ps steps) : p ∈ ps ∧ p.position.isFinite = true := by
  obtain ⟨hmem, hpasses⟩ := List.mem_filter.mp hp
  exact ⟨hmem, (Bool.and_eq_true_iff.mp hpasses).1⟩

section

variable (ps : List Ping) (steps : List (List (Option Shape)))

theorem isFinite_of_mem_restricted : ∀ p ∈ (restricted ps steps).pings,
    p.position.isFinite = true := by
  rw [pings_restricted]
  intro p hp
  obtain ⟨q, hq, rfl⟩ := List.mem_map.mp hp
  rw [Ping.position_restamped]
  exact (mem_kept hq).2

theorem keys_restricted :
    (restricted ps steps).pings.map Ping.key = (kept ps steps).map Ping.key := by
  rw [pings_restricted, List.map_map]
  exact List.map_congr_left fun p _ => Ping.key_restamped _ p

theorem filter_key_restricted (k : String) :
    ((restricted ps steps).pings.filter fun p => p.key == k) =
      ((kept ps steps).filter fun p => p.key == k).map (Ping.restamped (ps.any isZoned)) := by
  rw [pings_restricted, List.filter_map]
  congr 1
  exact List.filter_congr fun p _ => by rw [Function.comp_apply, Ping.key_restamped]

/-- The times that are kept can be told if those that were given denote times of the years 1 to
9999 in UTC. -/
theorem isTellable_of_mem_restricted
    (h : ∀ p ∈ ps, ∀ t, p.time? = some t → 0 ≤ t.utcMicros ∧ t.utcMicros < Timestamp.bound) :
    ∀ p ∈ (restricted ps steps).pings, isTellable p = true := by
  rw [pings_restricted]
  intro p hp
  obtain ⟨q, hq, rfl⟩ := List.mem_map.mp hp
  have hmem := (mem_kept hq).1
  refine isTellable_restamped (fun hnone => ?_) (h q hmem)
  simpa using List.any_eq_false.mp hnone q hmem

end

/-- **A collection shows the pings that are kept.** For pings whose times denote times of the years
1 to 9999 in UTC, and after any number of restrictions, all views of a collection are views of the
pings that were given, have a place, and pass every restriction. The years are those that can be
told: a zoned time that is written in them and leaves them in UTC is kept, and then the collection
has no groups. -/
theorem shows_restricted {ps : List Ping} (steps : List (List (Option Shape)))
    (h : ∀ p ∈ ps, ∀ t, p.time? = some t → 0 ≤ t.utcMicros ∧ t.utcMicros < Timestamp.bound) :
    (restricted ps steps).Shows (ps.any isZoned) (kept ps steps) := by
  have hpings := pings_restricted ps steps
  refine ⟨?_, ?_, fun grid => ?_⟩
  · rw [size, hpings, List.length_map]
  · have htellable := isTellable_of_mem_restricted ps steps h
    refine ⟨_, if_pos (List.all_eq_true.mpr htellable), ?_, fun k g hg => ?_, fun k => ?_⟩
    · rw [Catalog.keys_tabulate, keys_restricted]
    · rw [Catalog.get?_tabulate] at hg
      split_ifs at hg
      obtain rfl := Option.some.inj hg
      rw [filter_key_restricted, List.forall₂_map_right_iff, List.forall₂_same]
      exact fun p _ => Ping.keeps_restamped _ p
    · rw [countKeys, Catalog.get?_tally, Catalog.get?_tabulate]
      split_ifs
      · rw [Option.map_some, List.count, List.countP_map, List.countP_eq_length_filter]
        rfl
      · rfl
  · have hfinite := isFinite_of_mem_restricted ps steps
    obtain ⟨hcounts, hcells⟩ := get?_table grid (restricted ps steps).pings
    refine ⟨_, Coverage.gridCounts_of_finite grid hfinite, fun cell k => ?_, hcells⟩
    rw [hcounts, hpings, visits_restamped]

/-- A zoned time, a naive one outside the shape below, an unknown one, and a ping without a place
between them. -/
def mixed : List Ping :=
  [⟨0, "a", 0.5, 0.5, some ⟨7200000000, some (.fixed 3600000000)⟩⟩,
    ⟨1, "b", 1.5, 0.5, some ⟨5, none⟩⟩, ⟨2, "a", Double.infinity, 0.5, none⟩,
    ⟨3, "a", 0.5, 1, none⟩]

theorem shows_restricted_mixed :
    (restricted mixed [[none, some (Shape.box 0 0 1 1)]]).Shows true
      [⟨0, "a", 0.5, 0.5, some ⟨7200000000, some (.fixed 3600000000)⟩⟩,
        ⟨3, "a", 0.5, 1, none⟩] := by
  have hkept : kept mixed [[none, some (Shape.box 0 0 1 1)]] =
      [⟨0, "a", 0.5, 0.5, some ⟨7200000000, some (.fixed 3600000000)⟩⟩,
        ⟨3, "a", 0.5, 1, none⟩] := by
    decide +kernel
  have hzoned : mixed.any isZoned = true := by decide +kernel
  rw [← hkept, ← hzoned]
  refine shows_restricted _ fun p hp t ht => ?_
  simp only [mixed, List.mem_cons, List.not_mem_nil, or_false] at hp
  rcases hp with rfl | rfl | rfl | rfl <;> cases ht <;> decide

end PingCollection

end Corridor
