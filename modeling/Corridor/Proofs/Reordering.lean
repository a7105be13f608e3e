import Corridor.Proofs.Parts

/-!
# The Order of Observations

A ranking takes lists of pings, but it does not look at their order. Counts and cells are those
of the pings of an entity, whichever comes first, and segmentation sorts them by time. Only pings
of one entity at one instant would stay in the order in which they were given; where there are
none, pings in any other order have the same ranking.

## Main results

* `Tracklet.segment_of_perm`: tracklets do not depend on the order of pings at separate times.
* `Route.resembles_of_perm`: nor does anything else that the standing of an entity is made of.
* `Route.rank_of_perm`: the ranking of pings in another order.
-/

namespace Corridor

/-! ### Pings at separate instants -/

namespace Ping

/-- No two timed pings of one entity are at the same instant. -/
def SeparateTimes (ps : List Ping) : Prop :=
  (ps.filter isTimed).Pairwise fun p q => p.key = q.key → p.instant ≠ q.instant

@[simp] theorem instant_restamped (utc : Bool) (p : Ping) :
    (p.restamped utc).instant = p.instant := by
  rw [restamped]
  split_ifs
  · cases htime : p.time? with
    | none => simp [instant, htime]
    | some t => simp [instant, htime, Timestamp.toUtc, Timestamp.utcMicros, Timestamp.offset,
        Zone.offset]
  · rfl

@[simp] theorem isTimed_restamped (utc : Bool) (p : Ping) :
    (p.restamped utc).isTimed = p.isTimed := by
  rw [restamped]
  split_ifs
  · exact Option.isSome_map
  · rfl

end Ping

/-- **Tracklets do not depend on the order of pings** at separate times. -/
theorem Tracklet.segment_of_perm [Geodesy] (limits : MotionLimits) {ps qs : List Ping}
    (huniform : Ping.UniformTimes ps) (hconsistent : Ping.Consistent (ps.filter Ping.isTimed))
    (h : ps.Perm qs)
    (hseparate : (ps.filter Ping.isTimed).Pairwise fun p q => p.microsTo q ≠ 0) :
    segment limits ps = segment limits qs := by
  obtain ⟨sorted, tracklets, -, hsort, hsegment, hgreedy⟩ := exists_segment limits huniform
  obtain ⟨sorted', tracklets', -, hsort', hsegment', hgreedy'⟩ :=
    exists_segment limits (huniform.mono h.symm.subset)
  have hconsistent' : Ping.Consistent (qs.filter Ping.isTimed) :=
    hconsistent.mono (h.symm.filter Ping.isTimed).subset
  have hsame := (hsort.stable hconsistent).of_perm hconsistent (h.filter Ping.isTimed)
    (hseparate.imp Ping.tie_isBefore_eq_false_iff.mpr)
  obtain rfl := hsame.unique Ping.isAsymmetric_isBefore (hsort'.stable hconsistent')
  rw [hsegment, hsegment', hgreedy.unique hgreedy']

/-! ### Collections in another order -/

namespace PingCollection

variable {ps qs : List Ping}

/-- A collection of pings in another order holds its pings in another order. -/
theorem pings_ofList_of_perm (h : ps.Perm qs) : (ofList ps).pings.Perm (ofList qs).pings := by
  have hany : ps.any isZoned = qs.any isZoned := by
    rw [Bool.eq_iff_iff, List.any_eq_true, List.any_eq_true]
    simp only [h.mem_iff]
  rw [pings_ofList, pings_ofList, hany]
  exact (h.filter _).map _

/-- The timed pings of one entity in a collection are at separate times. -/
theorem separate_filter_ofList (h : Ping.SeparateTimes ps) (k : String) :
    (((ofList ps).pings.filter fun p => p.key == k).filter Ping.isTimed).Pairwise
      fun p q => p.microsTo q ≠ 0 := by
  have hinstants : (((ofList ps).pings.filter fun p => p.key == k).filter Ping.isTimed).Pairwise
      fun p q => p.instant ≠ q.instant := by
    rw [Ping.SeparateTimes, List.pairwise_filter] at h
    rw [List.pairwise_filter, List.pairwise_filter, pings_ofList, List.pairwise_map]
    refine (h.sublist List.filter_sublist).imp fun {p q} hpq => ?_
    simp only [Ping.key_restamped, Ping.isTimed_restamped, Ping.instant_restamped, beq_iff_eq]
    intro hp hq htimed htimed'
    exact hpq htimed htimed' (hp.trans hq.symm)
  refine hinstants.imp_of_mem fun {p q} hp hq hne => ?_
  obtain ⟨hp, hptimed⟩ := List.mem_filter.mp hp
  obtain ⟨hq, hqtimed⟩ := List.mem_filter.mp hq
  rw [Ping.microsTo_eq_of_oneOffset (isValid_ofList ps).oneOffset (List.mem_filter.mp hp).1
    (List.mem_filter.mp hq).1 hptimed hqtimed]
  omega

end PingCollection

/-! ### Rankings in another order -/

namespace Route

variable {scorer : Scorer} {settings : Settings} {box tube box' tube' : List Ping}

/-- What the standing of an entity is made of does not depend on the order of the pings. -/
theorem resembles_of_perm [Geodesy] (hbox : box'.Perm box) (htube : tube'.Perm tube)
    (hseparate : Ping.SeparateTimes box) (k : String) :
    Resembles (ofPings scorer settings box tube) (ofPings scorer settings box' tube') k := by
  have hpings := (PingCollection.pings_ofList_of_perm hbox.symm).filter fun p => p.key == k
  have hkeys := (PingCollection.pings_ofList_of_perm htube.symm).filter fun p => p.key == k
  refine ⟨hpings, hkeys, evidenceAt_congr hpings hkeys ?_⟩
  have hvalid := PingCollection.isValid_ofList box
  have huniform : Ping.UniformTimes ((ofPings scorer settings box tube).pingsOf k) :=
    hvalid.uniform.mono List.filter_sublist.subset
  have hsegment := Tracklet.segment_of_perm settings.motionLimits huniform
    (hvalid.consistent List.filter_sublist.subset) hpings
    (PingCollection.separate_filter_ofList hseparate k)
  simp only [Evidence.ofPure]
  exact congrArg (· >>= _) hsegment

/-- A ranking that resembles one that exists does so too. -/
theorem exists_result_of_resembles [Geodesy] {r r' : Route} {grid : Grid Float} {cells : List Cell}
    {extent : Extent} {shapes : List (Option Shape)} {divisions : Datum} {m : Rankings Float}
    (hranking : r.IsRanking grid cells m) (hsame : ∀ k, Resembles r r' k)
    (hgrid : Grid.build extent (orConfigured divisions r'.settings.gridDivisions) = .ok grid)
    (hcells : grid.cellsCovered shapes = .ok cells) (hvalid : r'.box.IsValid)
    (htellable : ∀ p ∈ r'.box.pings, PingCollection.isTellable p = true) :
    ∃ m', r'.result extent shapes divisions = .ok m' := by
  have hstanding : ∀ k ∈ r'.box.pings.map Ping.key, ∃ s, r'.IsStanding grid cells k s := by
    intro k hk
    have hkey : k ∈ m.keys :=
      (hranking.mem_keys k).mpr (.inr ((Coverage.mem_keys_congr (hsame k).box).mpr hk))
    obtain ⟨s, hs⟩ := Option.isSome_iff_exists.mp (Catalog.isSome_get?_iff.mpr hkey)
    exact ⟨s, (hranking.standing k s hs).congr (hsame k)⟩
  refine exists_result hgrid hcells hvalid.finite htellable (fun k hk => ?_) fun k hk => ?_
  · obtain ⟨c, hc⟩ := List.exists_mem_of_ne_nil _ hk
    obtain ⟨p, hp, hkey, -⟩ := Coverage.mem_touched.mp ((Coverage.mem_tubeTouched _ _ _).mp hc).1
    obtain ⟨s, hs⟩ := hstanding k (List.mem_map.mpr ⟨p, hp, hkey⟩)
    exact ⟨s.spread, hs.spread⟩
  · obtain ⟨s, hs⟩ := hstanding k hk
    have hevidence := hs.evidence
    rw [evidenceAt, if_pos hk] at hevidence
    exact ⟨s.evidence, hevidence⟩

/-- **Rankings do not depend on the order of observations**: if no two timed pings of one entity
in the box are at the same instant, and the ranking exists, then that of the same pings in any
other order exists too and has the same entries. -/
theorem rank_of_perm [Geodesy] (scorer : Scorer) (settings : Settings) (extent : Extent)
    (shapes : List (Option Shape)) (divisions : Datum) {box tube box' tube' : List Ping}
    {m : Rankings Float} (hpure : scorer.IsPure) (hseparate : Ping.SeparateTimes box)
    (hbox : box'.Perm box) (htube : tube'.Perm tube)
    (h : (Run.start ((ofPings scorer settings box tube).rank extent shapes divisions)).1 = .ok m) :
    ∃ m', (Run.start ((ofPings scorer settings box' tube').rank extent shapes divisions)).1 =
      .ok m' ∧ m'.keys.Nodup ∧ m'.entries.Perm m.entries := by
  have hresult : (ofPings scorer settings box tube).result extent shapes divisions = .ok m :=
    (rank_yields hpure extent shapes divisions Trace.empty).symm.trans h
  obtain ⟨grid, cells, hgrid, hcells, hranking⟩ := isRanking_of_result hresult
  have hsame : ∀ k, Resembles (ofPings scorer settings box tube)
      (ofPings scorer settings box' tube') k := resembles_of_perm hbox htube hseparate
  have htellable : ∀ p ∈ (PingCollection.ofList box').pings, PingCollection.isTellable p = true :=
    fun p hp => isTellable_of_result hresult p
      ((PingCollection.pings_ofList_of_perm hbox).mem_iff.mp hp)
  obtain ⟨m', hm'⟩ := exists_result_of_resembles hranking hsame hgrid hcells
    (PingCollection.isValid_ofList box') htellable
  obtain ⟨grid', cells', hgrid', hcells', hranking'⟩ := isRanking_of_result hm'
  obtain rfl := Except.ok.inj (hgrid.symm.trans hgrid')
  obtain rfl := Except.ok.inj (hcells.symm.trans hcells')
  refine ⟨m', (rank_yields hpure extent shapes divisions Trace.empty).trans hm',
    hranking'.nodup, ?_⟩
  exact Catalog.entries_perm hranking'.nodup hranking.nodup fun k =>
    (hranking.get?_eq hranking' (hsame k)).symm

theorem rank_of_perm_sample : ∃ m m' : Rankings Float,
    (Run.start ((ofPings Scorer.silent Settings.preset samplePings [samplePing]).rank
      (.bounds [0, 0, 2, 2]) [some (Shape.box 0 0 1 1)] (.whole (2 : ℕ)))).1 = .ok m ∧
    (Run.start ((ofPings Scorer.silent Settings.preset samplePings.reverse [samplePing]).rank
      (.bounds [0, 0, 2, 2]) [some (Shape.box 0 0 1 1)] (.whole (2 : ℕ)))).1 = .ok m' ∧
    m'.keys.Nodup ∧ m'.entries.Perm m.entries := by
  have hseparate : Ping.SeparateTimes samplePings := by
    rw [Ping.SeparateTimes, samplePings]
    decide
  obtain ⟨m, hm⟩ := exists_rank_silent [samplePing] samplePings_tellable (by decide)
  obtain ⟨m', hm', hnodup, hperm⟩ := rank_of_perm Scorer.silent Settings.preset
    (.bounds [0, 0, 2, 2]) [some (Shape.box 0 0 1 1)] (.whole (2 : ℕ))
    Scorer.silent_scoresBy.pure hseparate (List.reverse_perm samplePings) (.refl [samplePing]) hm
  exact ⟨m, m', hm, hm', hnodup, hperm⟩

end Route

end Corridor
