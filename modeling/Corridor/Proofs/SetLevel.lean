import Corridor.Proofs.Collection
import Corridor.Proofs.Exact
import Corridor.Proofs.Grid
import Corridor.Proofs.Ranking
import Corridor.Proofs.Stats

/-!
# Rankings by Their Definition

What a ranking gives each entity, said with sets: the cells its pings lie in, those among them
that belong to the tube, the vector of its visits to the cells of the tube, and the scores of
its tracklets. A ranking has a result, and the result is this, as long as the times of the box
can be told and the scores do not overflow when they are summed.

## Main results

* `Coverage.exists_spread`: spreads are deviations of the vector of visits, and always exist.
* `Evidence.exists_ofPure`: evidence exists if the sums of the scores fit.
* `Route.exists_rank`: rankings exist.
* `Route.rank_meets_definition`: the ranking exists and is the one by definition.
-/

namespace Corridor

open Double

/-! ### Spreads exist -/

namespace Coverage

variable {g : Grid Float} {ps : List Ping} {cells : List Cell}

theorem visits_le (g : Grid Float) (ps : List Ping) (k : String) (c : Cell) :
    visits g ps k c ≤ ps.length :=
  List.countP_le_length

/-- The visits to each cell as doubles. -/
theorem exists_counts (g : Grid Float) (k : String) {j : ℕ} (hj : j < 1024)
    (hps : ps.length ≤ 2 ^ j) :
    ∃ count : Cell → Float, ∀ c, Scalar.ofInt (visits g ps k c : ℤ) = .ok (count c) ∧
      Within (j + unitExponent) (count c) ∧ (c ∉ touched g ps k → count c = 0) := by
  have hcount : ∀ c, ∃ x : Float, Scalar.ofInt (visits g ps k c : ℤ) = .ok x ∧
      Within (j + unitExponent) x ∧ (c ∉ touched g ps k → x = 0) := by
    intro c
    have hle : ((visits g ps k c : ℤ)).natAbs ≤ 2 ^ j := (visits_le g ps k c).trans hps
    obtain ⟨x, hx, hwithin, -⟩ := ofInt_eq_ok hj hle
    refine ⟨x, hx, hwithin, fun hc => ?_⟩
    have hzero : (visits g ps k c : ℤ) = 0 :=
      Int.natCast_eq_zero.mpr (Nat.eq_zero_of_not_pos fun h => hc (visits_pos_iff.mp h))
    rw [hzero, ofInt_zero] at hx
    exact (Except.ok.inj hx).symm
  choose count hcount using hcount
  exact ⟨count, hcount⟩

section

variable {α : Type} [Scalar α] {k : String} {count : Cell → α}

/-- The counts of the tube cells that are touched, filled up with zeros, are those of all. -/
theorem perm_counts (hnodup : cells.Nodup)
    (hzero : ∀ c, c ∉ touched g ps k → count c = Scalar.zero) :
    ((tubeTouched g ps cells k).map count ++
      List.replicate (cells.length - (tubeTouched g ps cells k).length) Scalar.zero).Perm
        (cells.map count) := by
  have htouched : (tubeTouched g ps cells k).Perm (cells.filter (· ∈ touched g ps k)) := by
    rw [List.perm_ext_iff_of_nodup (nodup_tubeTouched g cells k ps) (hnodup.filter _)]
    intro c
    rw [mem_tubeTouched, List.mem_filter, decide_eq_true_eq, and_comm]
  have hsplit := List.filter_append_perm (fun c => decide (c ∈ touched g ps k)) cells
  have hrest : (cells.filter fun c => !decide (c ∈ touched g ps k)).map count =
      List.replicate (cells.length - (tubeTouched g ps cells k).length) Scalar.zero := by
    have hlength := hsplit.length_eq
    rw [List.length_append, ← htouched.length_eq] at hlength
    rw [List.eq_replicate_iff]
    constructor
    · rw [List.length_map]
      omega
    · intro x hx
      obtain ⟨c, hc, rfl⟩ := List.mem_map.mp hx
      exact hzero c (by simpa using (List.mem_filter.mp hc).2)
  rw [← hrest, ← List.map_append]
  exact ((htouched.append_right _).trans hsplit).map count

/-- The conversions of natural numbers of which each is known. -/
theorem mapM_natCast {ε α β : Type} {convert : ℤ → Except ε β} {n : α → ℕ} {f : α → β}
    (h : ∀ a, convert (n a : ℤ) = .ok (f a)) (as : List α) :
    (as.map fun a => (n a : ℤ)).mapM convert = .ok (as.map f) := by
  rw [List.mapM_map]
  exact Run.mapM_eq_map fun a _ => h a

/-- The spread is the deviation of the counts, filled up with zeros. -/
theorem spread_eq_deviation (hcount : ∀ c, Scalar.ofInt (visits g ps k c : ℤ) = .ok (count c))
    (hzeros : Stats.deviation (List.replicate cells.length (Scalar.zero : α)) = .ok Scalar.zero) :
    spread g ps cells k = Stats.deviation ((tubeTouched g ps cells k).map count ++
      List.replicate (cells.length - (tubeTouched g ps cells k).length) Scalar.zero) := by
  rw [spread]
  by_cases hempty : tubeTouched g ps cells k = []
  · rw [if_pos hempty, hempty, List.map_nil, List.nil_append, List.length_nil, Nat.sub_zero,
      hzeros]
  · have hfill : ((cells.length : ℤ) - ((tubeTouched g ps cells k).map count).length).toNat =
        cells.length - (tubeTouched g ps cells k).length := by
      rw [List.length_map]
      omega
    rw [if_neg hempty, CellCounts.spreadOfCounts, mapM_natCast hcount]
    simp only [bind, Except.bind]
    rw [hfill]

end

/-- **Spreads exist**: the spread of an entity is the deviation of the vector of its visits to
the cells of the tube, in some order. -/
theorem exists_spread (g : Grid Float) (k : String) (hnodup : cells.Nodup) {j m : ℕ}
    (hps : ps.length ≤ 2 ^ j) (hcells : cells.length ≤ 2 ^ m)
    (hjm : 2 * (j + m + 1) + m + 5 < 1024) :
    ∃ (count : Cell → Float) (l : List Float) (d : Float),
      (∀ c, Scalar.ofInt (visits g ps k c : ℤ) = .ok (count c)) ∧ l.Perm (cells.map count) ∧
        Stats.deviation l = .ok d ∧ spread g ps cells k = .ok d := by
  have hzero : (Scalar.zero : Float) = 0 := rfl
  obtain ⟨count, hcount⟩ := exists_counts g k (by omega) hps
  have hperm := perm_counts (k := k) hnodup fun c hc => ((hcount c).2.2 hc).trans hzero.symm
  have hwithin : ∀ x ∈ (tubeTouched g ps cells k).map count ++
      List.replicate (cells.length - (tubeTouched g ps cells k).length) Scalar.zero,
      Within (j + unitExponent) x := by
    intro x hx
    obtain ⟨c, -, rfl⟩ := List.mem_map.mp (hperm.mem_iff.mp hx)
    exact (hcount c).2.1
  have hlength := hperm.length_eq
  rw [List.length_map] at hlength
  obtain ⟨d, hd⟩ := Stats.exists_deviation hwithin (hlength.trans_le hcells) hjm
  have hzeros : Stats.deviation (List.replicate cells.length (Scalar.zero : Float)) =
      .ok Scalar.zero := by
    rw [hzero, Stats.deviation_zeros (by omega) hcells]
  exact ⟨count, _, d, fun c => (hcount c).1, hperm, hd,
    (spread_eq_deviation (fun c => (hcount c).1) hzeros).trans hd⟩

/-- The exact spread is the population standard deviation of the visits to the tube cells. -/
theorem spread_real (g : Grid Float) (ps : List Ping) (k : String) {tube : Finset Cell}
    (hnodup : cells.Nodup) (htube : ∀ c, c ∈ cells ↔ c ∈ tube) :
    spread g ps cells k = .ok (Stats.populationDeviation tube fun c => (visits g ps k c : ℝ)) := by
  have hzeros : Stats.deviation (List.replicate cells.length (Scalar.zero : ℝ)) =
      .ok Scalar.zero := by
    simp [Stats.deviation_real, Stats.standardDeviation, Stats.average, Scalar.zero]
  have hperm : (cells.map fun c => (visits g ps k c : ℝ)).Perm
      (tube.toList.map fun c => (visits g ps k c : ℝ)) := by
    refine List.Perm.map _ ((List.perm_ext_iff_of_nodup hnodup tube.nodup_toList).mpr fun c => ?_)
    rw [htube, Finset.mem_toList]
  have hcount : ∀ c, (Scalar.ofInt (visits g ps k c : ℤ) : Except ArithmeticFault ℝ) =
      .ok (visits g ps k c : ℝ) := fun c => congrArg Except.ok (Int.cast_natCast _)
  rw [spread_eq_deviation hcount hzeros]
  refine Stats.deviation_of_perm ((perm_counts hnodup fun c hc => ?_).trans hperm)
  have hvisits : visits g ps k c = 0 :=
    Nat.eq_zero_of_not_pos fun h => hc (visits_pos_iff.mp h)
  rw [hvisits]
  exact Nat.cast_zero

/-- The spread of an entity in an exact survey. -/
theorem getD_spreads_real {box : List Ping} (tubePings : List Ping) {sp : Catalog String ℝ}
    {tube : Finset Cell} (h : (survey g box tubePings cells).spreads = .ok sp)
    (hnodup : cells.Nodup) (htube : ∀ c, c ∈ cells ↔ c ∈ tube) (k : String) :
    sp.getD k Scalar.zero =
      Stats.populationDeviation tube fun c => (visits g box k c : ℝ) := by
  have hspread := getD_spreads tubePings h k
  rw [spread_real g box k hnodup htube] at hspread
  exact (Except.ok.inj hspread).symm

end Coverage

/-! ### Evidence exists -/

/-- A scorer that answers every call with the score that a function gives. -/
structure Scorer.ScoresBy (scorer : Scorer) (score : Track → Datum → Float) : Prop where
  pure : scorer.IsPure
  answers : ∀ track divisions, ∃ answer,
    scorer 0 track divisions = .ok answer ∧ answer.toFloat = .ok (score track divisions)

namespace Evidence

/-- The scores of tracklets. -/
def scoresOf (score : Track → Datum → Float) (divisions : Datum) (tracklets : List (List Ping)) :
    List Float :=
  tracklets.map fun tracklet => score (Track.through tracklet) divisions

variable {scorer : Scorer} {score : Track → Datum → Float} {limits : MotionLimits}
  {divisions : Datum} {ps : List Ping}

/-- The tracklets of an entity are scored one by one, and there are no more of them than pings. -/
theorem exists_scores [Geodesy] (hscore : scorer.ScoresBy score) (limits : MotionLimits)
    (divisions : Datum) (h : Ping.UniformTimes ps) :
    ∃ tracklets, Tracklet.segment limits ps = .ok tracklets ∧
      tracklets.mapM (scoreOf scorer divisions) = .ok (scoresOf score divisions tracklets) ∧
      tracklets.length ≤ ps.length := by
  obtain ⟨sorted, tracklets, -, hsort, hsegment, hgreedy⟩ := Tracklet.exists_segment limits h
  refine ⟨tracklets, hsegment, Run.mapM_eq_map fun tracklet hmem => ?_,
    Tracklet.length_tracklets_le hsort hgreedy⟩
  obtain ⟨-, horder⟩ := Tracklet.inOrder_tracklet hsort hgreedy h hmem
  obtain ⟨answer, hanswer, hvalue⟩ := hscore.answers (Track.through tracklet) divisions
  refine Run.bind_eq_ok.mpr ⟨Track.through tracklet, ?_, ?_⟩
  · exact Run.bind_eq_ok.mpr ⟨tracklet, horder, rfl⟩
  · exact Run.bind_eq_ok.mpr ⟨answer, hanswer, hvalue⟩

/-- **Evidence exists**: it is the summary of the scores of the tracklets, if their sums fit. -/
theorem exists_ofPure [Geodesy] (hscore : scorer.ScoresBy score) (h : Ping.UniformTimes ps) {m : ℕ}
    (hlen : ps.length ≤ 2 ^ m) (hm : m < 1024)
    (hfit : ∀ tracklets, Tracklet.segment limits ps = .ok tracklets →
      SumsFit (scoresOf score divisions tracklets)) :
    ∃ tracklets e, Tracklet.segment limits ps = .ok tracklets ∧
      summarize (scoresOf score divisions tracklets) = .ok e ∧
      ofPure scorer limits divisions ps = .ok e := by
  obtain ⟨tracklets, hsegment, hscores, hfew⟩ := exists_scores hscore limits divisions h
  have hlength : (scoresOf score divisions tracklets).length ≤ 2 ^ m := by
    rw [scoresOf, List.length_map]
    exact hfew.trans hlen
  obtain ⟨e, he⟩ := exists_summarize (hfit tracklets hsegment) hlength hm
  refine ⟨tracklets, e, hsegment, he, ?_⟩
  refine Run.bind_eq_ok.mpr ⟨tracklets, hsegment, Run.bind_eq_ok.mpr ⟨_, hscores, ?_⟩⟩
  exact Run.mapError_eq_ok.mpr he

end Evidence

/-! ### Rankings by definition -/

namespace Route

/-- The keys of the pings in the tube. -/
def tubeKeys (r : Route) : Finset String := (r.tube.pings.map Ping.key).toFinset

/-- The keys of the pings in the box. -/
def boxKeys (r : Route) : Finset String := (r.box.pings.map Ping.key).toFinset

/-- The scores of the tracklets of an entity in the box. -/
def HasScores [Geodesy] (r : Route) (score : Track → Datum → Float) (k : String)
    (scores : List Float) : Prop :=
  ∃ tracklets, Tracklet.segment r.settings.motionLimits (r.pingsOf k) = .ok tracklets ∧
    scores = Evidence.scoresOf score (.whole r.settings.routeDivisions) tracklets

/-- The spreads of a ranking without rounding: those of its counts over the real numbers. -/
noncomputable def exactSpreads (r : Route) (grid : Grid Float) (shapes : List (Option Shape)) :
    Except Fault (Catalog String ℝ) := do
  let cells ← grid.cellsCovered shapes
  let survey ← r.survey grid cells
  let spreads : Catalog String ℝ ← survey.spreads
  return spreads

/-- The standing that an entity has by definition, given the grid, the cells of the tube, and the
scores of tracks. -/
structure MeetsDefinition [Geodesy] (r : Route) (grid : Grid Float) (tube : Finset Cell)
    (score : Track → Datum → Float) (k : String) (s : Standing Float) : Prop where
  tubeCount : s.tubeCount = r.tube.pings.countP fun p => p.key == k
  boxCount : s.boxCount = r.box.pings.countP fun p => p.key == k
  boxCells : s.boxCells = (Coverage.touched grid r.box.pings k).card
  tubeCells : s.tubeCells = (Coverage.touched grid r.box.pings k ∩ tube).card
  tubeSize : s.tubeSize = tube.card
  divisions : s.divisions = grid.divisions
  /-- The deviation of the visits to all cells of the tube, in some order. -/
  spread : ∃ (count : Cell → Float) (l : List Float),
    (∀ c, Scalar.ofInt (Coverage.visits grid r.box.pings k c : ℤ) = .ok (count c)) ∧
      l.Perm (tube.toList.map count) ∧ Stats.deviation l = .ok s.spread
  evidence : k ∈ r.tubeKeys ∩ r.boxKeys →
    ∃ scores, r.HasScores score k scores ∧ Evidence.summarize scores = .ok s.evidence
  noEvidence : k ∉ r.tubeKeys ∩ r.boxKeys → s.evidence = Evidence.nothing

variable {r : Route} {score : Track → Datum → Float} {grid : Grid Float} {cells : List Cell}
  {tube : Finset Cell} {k : String}

theorem count_keys (ps : List Ping) (k : String) :
    (ps.map Ping.key).count k = ps.countP fun p => p.key == k := by
  rw [List.count, List.countP_map]
  rfl

/-- There are no more scores than pings. -/
theorem HasScores.length_le [Geodesy] {scores : List Float} (h : r.HasScores score k scores)
    (hbox : r.box.IsValid) : scores.length ≤ r.box.size := by
  obtain ⟨tracklets, hsegment, rfl⟩ := h
  have huniform : Ping.UniformTimes (r.pingsOf k) :=
    hbox.uniform.mono (List.filter_sublist.subset)
  obtain ⟨sorted, tracklets', -, hsort, hsegment', hgreedy⟩ :=
    Tracklet.exists_segment r.settings.motionLimits huniform
  obtain rfl := Except.ok.inj (hsegment'.symm.trans hsegment)
  rw [Evidence.scoresOf, List.length_map]
  exact (Tracklet.length_tracklets_le hsort hgreedy).trans (List.length_filter_le _ _)

/-- The evidence of an entity exists if the sums of its scores fit. -/
theorem exists_evidenceAt [Geodesy] (hscore : r.scorer.ScoresBy score) (hbox : r.box.IsValid)
    {m : ℕ} (hsize : r.box.size ≤ 2 ^ m) (hm : m < 1024)
    (hfit : k ∈ r.tubeKeys ∩ r.boxKeys → ∀ scores, r.HasScores score k scores →
      Evidence.SumsFit scores) :
    ∃ e, r.evidenceAt k = .ok e ∧
      (k ∈ r.tubeKeys ∩ r.boxKeys →
        ∃ scores, r.HasScores score k scores ∧ Evidence.summarize scores = .ok e) ∧
      (k ∉ r.tubeKeys ∩ r.boxKeys → e = Evidence.nothing) := by
  have htube : r.tube.countKeys.contains k = true ↔ k ∈ r.tubeKeys := by
    rw [PingCollection.countKeys, Catalog.contains_tally, tubeKeys, List.mem_toFinset]
  have hboxKeys : k ∈ r.box.pings.map Ping.key ↔ k ∈ r.boxKeys := List.mem_toFinset.symm
  rw [Finset.mem_inter] at hfit ⊢
  rw [evidenceAt, evidenceOf]
  by_cases hkbox : k ∈ r.boxKeys
  · rw [if_pos (hboxKeys.mpr hkbox)]
    by_cases hktube : k ∈ r.tubeKeys
    · have huniform : Ping.UniformTimes (r.pingsOf k) :=
        hbox.uniform.mono (List.filter_sublist.subset)
      have hlen : (r.pingsOf k).length ≤ 2 ^ m := (List.length_filter_le _ _).trans hsize
      obtain ⟨tracklets, e, hsegment, he, hpure⟩ := Evidence.exists_ofPure hscore huniform hlen hm
        fun tracklets hsegment => hfit ⟨hktube, hkbox⟩ _ ⟨tracklets, hsegment, rfl⟩
      rw [if_pos (htube.mpr hktube)]
      exact ⟨e, hpure, fun _ => ⟨_, ⟨tracklets, hsegment, rfl⟩, he⟩,
        fun h => absurd ⟨hktube, hkbox⟩ h⟩
    · rw [if_neg fun h => hktube (htube.mp h)]
      exact ⟨_, rfl, fun h => absurd h.1 hktube, fun _ => rfl⟩
  · rw [if_neg fun h => hkbox (hboxKeys.mp h)]
    exact ⟨_, rfl, fun h => absurd h.2 hkbox, fun _ => rfl⟩

/-- The exact spreads are the population standard deviations. -/
theorem exists_exactSpreads {shapes : List (Option Shape)} (hbox : r.box.IsValid)
    (hcells : grid.cellsCovered shapes = .ok cells) (hnodup : cells.Nodup)
    (htube : ∀ c, c ∈ cells ↔ c ∈ tube) :
    ∃ exact, r.exactSpreads grid shapes = .ok exact ∧ ∀ k, exact.getD k 0 =
      Stats.populationDeviation tube fun c => (Coverage.visits grid r.box.pings k c : ℝ) := by
  have hspread : ∀ k, Coverage.spread grid r.box.pings cells k = .ok _ := fun k =>
    Coverage.spread_real grid r.box.pings k hnodup htube
  obtain ⟨exact, hexact⟩ := Coverage.exists_spreads (α := ℝ) r.tube.pings
    fun k _ => ⟨_, hspread k⟩
  refine ⟨exact, ?_, Coverage.getD_spreads_real r.tube.pings hexact hnodup htube⟩
  have hsurvey := survey_eq_ok.mpr
    ⟨hbox.finite, (rfl : Coverage.survey grid r.box.pings r.tube.pings cells = _)⟩
  exact Run.bind_eq_ok.mpr ⟨cells, hcells,
    Run.bind_eq_ok.mpr ⟨_, hsurvey, Run.mapError_eq_ok.mpr hexact⟩⟩

/-- The standing of an entity is the one by definition. -/
theorem IsStanding.meetsDefinition [Geodesy] {s : Standing Float} (h : r.IsStanding grid cells k s)
    (hscore : r.scorer.ScoresBy score) (hbox : r.box.IsValid) (hnodup : cells.Nodup)
    (htube : ∀ c, c ∈ cells ↔ c ∈ tube) {j m : ℕ} (hsize : r.box.size ≤ 2 ^ j)
    (hcells : tube.card ≤ 2 ^ m) (hjm : 2 * (j + m + 1) + m + 5 < 1024)
    (hfit : k ∈ r.tubeKeys ∩ r.boxKeys → ∀ scores, r.HasScores score k scores →
      Evidence.SumsFit scores) :
    r.MeetsDefinition grid tube score k s := by
  have hperm : cells.Perm tube.toList :=
    (List.perm_ext_iff_of_nodup hnodup tube.nodup_toList).mpr fun c => by
      rw [htube, Finset.mem_toList]
  have hlength : cells.length = tube.card := by rw [hperm.length_eq, Finset.length_toList]
  obtain ⟨count, l, d, hcount, hl, hd, hspread⟩ :=
    Coverage.exists_spread grid k hnodup hsize (hlength.trans_le hcells) hjm
  obtain rfl := Except.ok.inj (hspread.symm.trans h.spread)
  obtain ⟨e, he, hsome, hnone⟩ := exists_evidenceAt hscore hbox hsize (by omega) hfit
  obtain rfl := Except.ok.inj (he.symm.trans h.evidence)
  refine ⟨?_, ?_, h.boxCells, ?_, ?_, h.divisions, ?_, hsome, hnone⟩
  · rw [h.tubeCount, count_keys]
  · rw [h.boxCount, count_keys]
  · have hset : (Coverage.touched grid r.box.pings k).filter (· ∈ cells) =
        Coverage.touched grid r.box.pings k ∩ tube := by
      ext c
      rw [Finset.mem_filter, Finset.mem_inter, htube]
    rw [h.tubeCells, hset]
  · rw [h.tubeSize, hlength]
  · exact ⟨count, l, hcount, hl.trans (hperm.map count), hd⟩

/-- **Rankings exist**: for pings whose times can be told, and for scores whose sums do not
overflow. -/
theorem exists_rank [Geodesy] {extent : Extent} {shapes : List (Option Shape)} {divisions : Datum}
    (hscore : r.scorer.ScoresBy score) (hbox : r.box.IsValid)
    (htellable : ∀ p ∈ r.box.pings, PingCollection.isTellable p = true)
    (hgrid : Grid.build extent (orConfigured divisions r.settings.gridDivisions) = .ok grid)
    (hcovered : grid.cellsCovered shapes = .ok cells) (hnodup : cells.Nodup) {j m : ℕ}
    (hsize : r.box.size ≤ 2 ^ j) (hcells : cells.length ≤ 2 ^ m)
    (hjm : 2 * (j + m + 1) + m + 5 < 1024)
    (hfit : ∀ k ∈ r.tubeKeys ∩ r.boxKeys, ∀ scores, r.HasScores score k scores →
      Evidence.SumsFit scores) :
    ∃ rankings, (Run.start (r.rank extent shapes divisions)).1 = .ok rankings := by
  have hspread : ∀ k, ∃ s : Float, Coverage.spread grid r.box.pings cells k = .ok s := fun k => by
    obtain ⟨-, -, d, -, -, -, hd⟩ := Coverage.exists_spread grid k hnodup hsize hcells hjm
    exact ⟨d, hd⟩
  have hevidence : ∀ k ∈ r.box.pings.map Ping.key,
      ∃ e, r.evidenceOf k (r.pingsOf k) = .ok e := fun k hk => by
    obtain ⟨e, he, -⟩ := exists_evidenceAt hscore hbox hsize (by omega) (hfit k)
    rw [evidenceAt, if_pos hk] at he
    exact ⟨e, he⟩
  obtain ⟨rankings, hresult⟩ := exists_result hgrid hcovered hbox.finite htellable
    (fun k _ => hspread k) hevidence
  exact ⟨rankings, (rank_yields hscore.pure extent shapes divisions Trace.empty).trans hresult⟩

/-- **A ranking is the one by definition.** For pings whose times can be told, and for scores
whose sums do not overflow, it has a result with one standing for each key of the tube and the
box, and each standing is the one by definition. Without rounding, the spreads are population
standard deviations over the tube. -/
theorem rank_meets_definition [Geodesy] (r : Route) {extent : Extent} {shapes : List (Option Shape)}
    {divisions : Datum} {grid : Grid Float} {tube : Finset Cell} {score : Track → Datum → Float}
    (hscore : r.scorer.ScoresBy score) (hbox : r.box.IsValid)
    (htellable : ∀ p ∈ r.box.pings, PingCollection.isTellable p = true)
    (hgrid : Grid.build extent (orConfigured divisions r.settings.gridDivisions) = .ok grid)
    (htube : ∀ c, c ∈ tube ↔ grid.IsTubeCell shapes c)
    (hsize : r.box.size < 2 ^ 63) (hcells : tube.card < 2 ^ 63)
    (hfit : ∀ k ∈ r.tubeKeys ∩ r.boxKeys, ∀ scores, r.HasScores score k scores →
      Evidence.SumsFit scores) :
    ∃ m exact, (Run.start (r.rank extent shapes divisions)).1 = .ok m ∧ m.keys.Nodup ∧
      (∀ k, k ∈ m.keys ↔ k ∈ r.tubeKeys ∪ r.boxKeys) ∧
      (∀ k s, m.get? k = some s → r.MeetsDefinition grid tube score k s) ∧
      r.exactSpreads grid shapes = .ok exact ∧ ∀ k, exact.getD k 0 =
        Stats.populationDeviation tube fun c => (Coverage.visits grid r.box.pings k c : ℝ) := by
  obtain ⟨cells, hcovered, hnodup, hmem⟩ := Grid.exists_cellsCovered hgrid shapes
  have htube' : ∀ c, c ∈ cells ↔ c ∈ tube := fun c => (hmem c).trans (htube c).symm
  have hlength : cells.length ≤ 2 ^ 63 := by
    rw [← List.toFinset_card_of_nodup hnodup]
    refine (Finset.card_le_card fun c hc => ?_).trans hcells.le
    exact (htube' c).mp (List.mem_toFinset.mp hc)
  obtain ⟨m, hm⟩ := exists_rank hscore hbox htellable hgrid hcovered hnodup hsize.le hlength
    (by omega) hfit
  obtain ⟨grid', cells', hgrid', hcovered', hranking⟩ := isRanking_of_rank hscore.pure hm
  obtain rfl := Except.ok.inj (hgrid.symm.trans hgrid')
  obtain rfl := Except.ok.inj (hcovered.symm.trans hcovered')
  obtain ⟨exact, hexact, hvalues⟩ := exists_exactSpreads hbox hcovered hnodup htube'
  refine ⟨m, exact, hm, hranking.nodup, fun k => ?_, fun k s hs => ?_, hexact, hvalues⟩
  · rw [hranking.mem_keys, Finset.mem_union, tubeKeys, boxKeys, List.mem_toFinset,
      List.mem_toFinset]
  · exact (hranking.standing k s hs).meetsDefinition hscore hbox hnodup htube' hsize.le hcells.le
      (by omega) (hfit k)

/-! ### A sample -/

/-- One observation at the start of the year 1. -/
def samplePing : Ping := ⟨0, "a", 0.5, 0.5, some ⟨0, none⟩⟩

/-- A route past which one entity went, and beside which another was seen. -/
def sample : Route where
  scorer := fun _ _ _ => .ok (.real 1)
  box := .ofList [samplePing, ⟨1, "b", 1.5, 0.5, none⟩]
  tube := .ofList [samplePing]
  settings := Settings.preset

theorem sample_tellable : ∀ p ∈ sample.box.pings, PingCollection.isTellable p = true := by
  decide +kernel

theorem sample_keys : sample.tubeKeys ∩ sample.boxKeys = {"a"} := by
  decide +kernel

theorem sumsFit_one : Evidence.SumsFit [1] := by
  have hcount : (Scalar.ofInt ([(1 : Float)].length : ℤ) : Except ArithmeticFault Float) = .ok 1 :=
    ofInt_of_eq_some (by decide +kernel)
  refine ⟨1, by decide +kernel, fun count h => ?_⟩
  obtain rfl := Except.ok.inj (hcount.symm.trans h)
  exact ⟨0, by decide +kernel⟩

/-- The entity near the route has one tracklet of one ping. -/
theorem sample_scores {scores : List Float}
    (h : sample.HasScores (fun _ _ => 1) "a" scores) : scores = [1] := by
  obtain ⟨tracklets, hsegment, rfl⟩ := h
  have hpings : sample.pingsOf "a" = [samplePing] := by decide +kernel
  have hsingle := Tracklet.segment_singleton sample.settings.motionLimits
    (show samplePing.isTimed = true from rfl)
  rw [hpings] at hsegment
  obtain rfl := Except.ok.inj (hsingle.symm.trans hsegment)
  rfl

/-- The grid of two by two cells on which the sample is ranked. -/
theorem exists_sampleGrid :
    ∃ grid, Grid.build (.bounds [0, 0, 2, 2]) (.whole (2 : ℕ)) = .ok grid ∧ grid.size = 4 :=
  ⟨_, Grid.build_bounds (x := 2) (by decide) (by decide +kernel) (by decide +kernel)
    (ofInt_of_eq_some (by decide +kernel)), rfl⟩

/-- On that grid, one cell belongs to the tube of the sample. -/
theorem exists_sampleTube :
    ∃ (grid : Grid Float) (cells : List Cell),
      Grid.build (.bounds [0, 0, 2, 2]) (.whole (2 : ℕ)) = .ok grid ∧
      grid.cellsCovered [some (Shape.box 0 0 1 1)] = .ok cells ∧ cells.Nodup ∧
      cells.length = 1 := by
  obtain ⟨grid, hgrid, -⟩ := exists_sampleGrid
  obtain ⟨cells, hcells, hnodup, -⟩ := Grid.exists_cellsCovered hgrid [some (Shape.box 0 0 1 1)]
  have hcovered : ((Grid.build (.bounds [0, 0, 2, 2]) (.whole (2 : ℕ)) >>= fun g =>
      Grid.cellsCovered g [some (Shape.box 0 0 1 1)]).toOption.map List.length) = some 1 := by
    decide +kernel
  rw [Run.bind_eq_ok.mpr ⟨grid, hgrid, hcells⟩] at hcovered
  exact ⟨grid, cells, hgrid, hcells, hnodup, Option.some.inj hcovered⟩

theorem sample_scoresBy : sample.scorer.ScoresBy fun _ _ => 1 :=
  ⟨fun _ _ _ _ => rfl, fun _ _ => ⟨_, rfl, rfl⟩⟩

theorem rank_meets_definition_sample : ∃ (grid : Grid Float) (tube : Finset Cell),
    (∀ c, c ∈ tube ↔ grid.IsTubeCell [some (Shape.box 0 0 1 1)] c) ∧
    ∃ m exact, (Run.start (sample.rank (.bounds [0, 0, 2, 2]) [some (Shape.box 0 0 1 1)]
        (.whole (2 : ℕ)))).1 = .ok m ∧ m.keys.Nodup ∧
      (∀ k, k ∈ m.keys ↔ k ∈ sample.tubeKeys ∪ sample.boxKeys) ∧
      (∀ k s, m.get? k = some s → sample.MeetsDefinition grid tube (fun _ _ => 1) k s) ∧
      sample.exactSpreads grid [some (Shape.box 0 0 1 1)] = .ok exact ∧
      ∀ k, exact.getD k 0 = Stats.populationDeviation tube fun c =>
        (Coverage.visits grid sample.box.pings k c : ℝ) := by
  obtain ⟨grid, hgrid, hsize⟩ := exists_sampleGrid
  obtain ⟨cells, -, -, hmem⟩ := Grid.exists_cellsCovered hgrid [some (Shape.box 0 0 1 1)]
  have htube : ∀ c, c ∈ cells.toFinset ↔ _ := fun c => List.mem_toFinset.trans (hmem c)
  have hcard := Grid.card_le_size fun c hc => (htube c).mp hc
  have hbox : sample.box.IsValid := by
    dsimp only [sample]
    exact PingCollection.isValid_ofList _
  refine ⟨grid, cells.toFinset, htube, rank_meets_definition sample ⟨?_, ?_⟩ hbox
    sample_tellable hgrid htube ?_ (hcard.trans_lt ?_) fun k hk scores h => ?_⟩
  · exact fun _ _ _ _ => rfl
  · exact fun _ _ => ⟨_, rfl, rfl⟩
  · decide +kernel
  · rw [hsize]
    decide
  · rw [sample_keys, Finset.mem_singleton] at hk
    subst hk
    rw [sample_scores h]
    exact sumsFit_one

/-- The sample with its first time moved east, where it lies before the year 1. -/
def untold : Route where
  scorer := fun _ _ _ => .ok (.real 1)
  box := .ofList [{ samplePing with time? := some ⟨0, some (.fixed 18000000000)⟩ }]
  tube := .empty
  settings := Settings.preset

/-- A time that cannot be told leaves a ranking without a result, also where nothing is scored. -/
theorem rank_untold : untold.scorer.ScoresBy (fun _ _ => 1) ∧ untold.box.IsValid ∧
    untold.tubeKeys = ∅ ∧
    (∃ grid, Grid.build (.bounds [0, 0, 2, 2]) (.whole (2 : ℕ)) = .ok grid) ∧
    ∀ m, (Run.start (untold.rank (.bounds [0, 0, 2, 2]) [] (.whole (2 : ℕ)))).1 ≠ .ok m := by
  have hpure : untold.scorer.IsPure := fun _ _ _ _ => rfl
  have hbox : untold.box.IsValid := by
    dsimp only [untold]
    exact PingCollection.isValid_ofList _
  obtain ⟨grid, hgrid, -⟩ := exists_sampleGrid
  refine ⟨⟨hpure, fun _ _ => ⟨_, rfl, rfl⟩⟩, hbox, rfl, ⟨grid, hgrid⟩, fun m hm => ?_⟩
  have htellable := isTellable_of_result ((rank_yields hpure _ _ _ Trace.empty).symm.trans hm)
  revert htellable
  decide +kernel

end Route

end Corridor
