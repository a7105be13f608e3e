import Corridor.Proofs.Coverage
import Corridor.Ranking

/-!
# The Standing of Each Entity

With a scorer that does not count its calls, a ranking has a result of its own, apart from the
trace it leaves. That result is said key by key: the standing of an entity is made of its pings
in the box, of how often it occurs in the tube, and of the grid.

## Main results

* `rank_yields`: the result of a ranking does not depend on the trace before it.
* `rankOver`, `parts_of_rankOver`: rankings over any scalar, and what they are put together from.
* `isRanking_of_result`: the standing of each key, and which keys there are.
* `exists_result`: a ranking whose parts have results has one.
-/

namespace Corridor

/-! ### The standings of a survey -/

namespace Coverage

variable {grid : Grid Float} {box tube : List Ping} {cells : List Cell} {k : String}

/-- The keys of a survey are those of the tube and the box. -/
theorem mem_keys_survey : k ∈ (survey grid box tube cells).keys ↔
    k ∈ tube.map Ping.key ∨ k ∈ box.map Ping.key := by
  rw [Survey.keys, List.mem_eraseDups, List.mem_append, survey, Catalog.tally, Catalog.tally,
    Catalog.keys_tabulate, Catalog.keys_tabulate, List.mem_eraseDups, List.mem_eraseDups]

variable {α : Type} [Scalar α] {sp : Catalog String α} {ev : Catalog String (Evidence α)}

/-- What the standings of a survey give an entity. -/
theorem eq_of_get?_standings {s : Standing α}
    (h : ((survey grid box tube cells).standings sp ev).get? k = some s) :
    s = {
      tubeCount := (tube.map Ping.key).count k
      boxCount := (box.map Ping.key).count k
      boxCells := (touched grid box k).card
      tubeCells := ((touched grid box k).filter (· ∈ cells)).card
      spread := sp.getD k Scalar.zero
      evidence := ev.getD k Evidence.nothing
      divisions := grid.divisions
      tubeSize := cells.length } := by
  rw [Survey.standings, Catalog.get?_tabulate] at h
  split_ifs at h
  rw [← Option.some.inj h, getD_boxCoverage, getD_tubeCoverage]
  simp only [survey, Catalog.getD_tally]

/-- Every entity of a survey has a standing. -/
theorem exists_get?_standings (h : k ∈ tube.map Ping.key ∨ k ∈ box.map Ping.key) :
    ∃ s, ((survey grid box tube cells).standings sp ev).get? k = some s := by
  rw [Survey.standings, Catalog.get?_tabulate, if_pos (mem_keys_survey.mpr h)]
  exact ⟨_, rfl⟩

end Coverage

/-! ### Evidence without a trace -/

/-- The same answer at every call. -/
def Scorer.IsPure (scorer : Scorer) : Prop :=
  ∀ i j track divisions, scorer i track divisions = scorer j track divisions

namespace Evidence

/-- The score of a tracklet by a scorer that does not count its calls. -/
def scoreOf (scorer : Scorer) (divisions : Datum) (tracklet : List Ping) : Except Fault Float := do
  let track ← Track.ofPings tracklet
  let score ← scorer 0 track divisions
  score.toFloat

/-- The evidence in the pings of one entity by a scorer that does not count its calls. -/
def ofPure [Geodesy] (scorer : Scorer) (limits : MotionLimits) (divisions : Datum)
    (ps : List Ping) : Except Fault (Evidence Float) := do
  let tracklets ← Tracklet.segment limits ps
  let scores ← tracklets.mapM (scoreOf scorer divisions)
  summarize scores

variable {scorer : Scorer} (hpure : scorer.IsPure)
include hpure

theorem scoreTracklet_yields (divisions : Datum) (tracklet : List Ping) :
    Run.Yields (scoreTracklet scorer divisions tracklet) (scoreOf scorer divisions tracklet) := by
  refine Run.Yields.guarded (Run.Yields.bind (Run.Yields.ofExcept _) fun track _ => ?_)
  refine Run.Yields.noteCall fun n => ?_
  rw [hpure n 0]
  exact Run.Yields.bind (Run.Yields.ofExcept _) fun score _ => Run.Yields.ofExcept _

/-- The evidence of an entity does not depend on the trace before it. -/
theorem ofPings_yields [Geodesy] (limits : MotionLimits) (divisions : Datum) (ps : List Ping) :
    Run.Yields (ofPings scorer limits divisions ps) (ofPure scorer limits divisions ps) := by
  refine Run.Yields.bind (Run.Yields.ofExcept _) fun tracklets _ => ?_
  refine Run.Yields.bind (Run.Yields.mapM fun g _ => scoreTracklet_yields hpure divisions g)
    fun scores _ => ?_
  exact Run.Yields.ofExcept _

end Evidence

namespace Route

/-! ### Rankings without a trace -/

/-- The evidence of one entity, given its pings in the box. -/
def evidenceOf [Geodesy] (r : Route) (k : String) (ps : List Ping) :
    Except Fault (Evidence Float) :=
  if r.tube.countKeys.contains k then
    Evidence.ofPure r.scorer r.settings.motionLimits (.whole r.settings.routeDivisions) ps
  else .ok Evidence.nothing

/-- The evidence of every entity in the box. -/
def evidenceTable [Geodesy] (r : Route) : Except Fault (Catalog String (Evidence Float)) := do
  let groups ← r.box.groups
  let entries ← groups.entries.mapM fun e => do return (e.1, ← r.evidenceOf e.1 e.2)
  return ⟨entries⟩

/-- The result of a ranking. -/
def result [Geodesy] (r : Route) (extent : Extent) (shapes : List (Option Shape))
    (divisions : Datum) : Except Fault (Rankings Float) := do
  let grid ← Grid.build extent (orConfigured divisions r.settings.gridDivisions)
  let cells ← grid.cellsCovered shapes
  let survey ← r.survey grid cells
  let spreads : Catalog String Float ← survey.spreads
  let evidence ← r.evidenceTable
  return survey.standings spreads evidence

/-! ### Rankings over any scalar -/

section

variable {α : Type} [Scalar α]

/-- The standings of all entities over any scalar, given how their evidence is come by. Where the
pings lie is told by doubles all the same. -/
def rankOver (r : Route) (evidence : Run (Catalog String (Evidence α))) (extent : Extent)
    (shapes : List (Option Shape)) (divisions : Datum) : Run (Rankings α) := do
  let grid ← Grid.build extent (orConfigured divisions r.settings.gridDivisions)
  let tube ← grid.cellsCovered shapes
  warnIfEmpty grid tube
  let survey ← r.survey grid tube
  let spreads : Catalog String α ← survey.spreads
  let evidence ← evidence
  let rankings := survey.standings spreads evidence
  Run.log .info (summary rankings.size grid tube)
  return rankings

/-- The result of a ranking over any scalar, given the evidence. -/
def resultOver (r : Route) (evidence : Except Fault (Catalog String (Evidence α)))
    (extent : Extent) (shapes : List (Option Shape)) (divisions : Datum) :
    Except Fault (Rankings α) := do
  let grid ← Grid.build extent (orConfigured divisions r.settings.gridDivisions)
  let cells ← grid.cellsCovered shapes
  let survey ← r.survey grid cells
  let spreads : Catalog String α ← survey.spreads
  return survey.standings spreads (← evidence)

variable (r : Route) {evidence : Run (Catalog String (Evidence α))}
  {table : Except Fault (Catalog String (Evidence α))}

/-- The ranking of the program is the one over doubles. -/
theorem rank_eq_rankOver [Geodesy] (extent : Extent) (shapes : List (Option Shape))
    (divisions : Datum) :
    r.rank extent shapes divisions = r.rankOver r.evidence extent shapes divisions :=
  rfl

/-- The result of a ranking does not depend on the trace before it if the evidence does not. -/
theorem rankOver_yields (h : Run.Yields evidence table) (extent : Extent)
    (shapes : List (Option Shape)) (divisions : Datum) :
    Run.Yields (r.rankOver evidence extent shapes divisions)
      (r.resultOver table extent shapes divisions) := by
  refine Run.Yields.bind (Run.Yields.ofExcept _) fun grid _ => ?_
  refine Run.Yields.bind (Run.Yields.ofExcept _) fun cells _ => ?_
  have hwarn : Run.Yields (warnIfEmpty grid cells) (.ok ()) := by
    rw [warnIfEmpty]
    split_ifs
    · exact Run.Yields.log _ _
    · exact Run.Yields.pure ()
  refine Run.Yields.andThen hwarn ?_
  refine Run.Yields.bind (Run.Yields.ofExcept _) fun survey _ => ?_
  refine Run.Yields.bind (Run.Yields.ofExcept _) fun spreads _ => ?_
  refine Run.Yields.bind h fun evidence _ => ?_
  exact Run.Yields.andThen (Run.Yields.log _ _) (Run.Yields.pure _)

end

/-! ### The result of a ranking -/

variable {r : Route} (hpure : r.scorer.IsPure)
include hpure

theorem evidence_yields [Geodesy] : Run.Yields r.evidence r.evidenceTable := by
  refine Run.Yields.bind (Run.Yields.ofExcept _) fun groups _ => ?_
  refine Run.Yields.bind (Run.Yields.mapM fun e _ => ?_) fun entries _ => Run.Yields.pure _
  rw [evidenceOf]
  split_ifs with h
  · exact Run.Yields.bind (Evidence.ofPings_yields hpure _ _ _) fun _ _ => Run.Yields.pure _
  · exact Run.Yields.pure _

/-- **The result of a ranking does not depend on the trace before it.** -/
theorem rank_yields [Geodesy] (extent : Extent) (shapes : List (Option Shape)) (divisions : Datum) :
    Run.Yields (r.rank extent shapes divisions) (r.result extent shapes divisions) :=
  r.rankOver_yields (evidence_yields hpure) extent shapes divisions

omit hpure

/-! ### Key by key -/

/-- The pings of an entity in the box. -/
def pingsOf (r : Route) (k : String) : List Ping := r.box.pings.filter fun p => p.key == k

/-- The evidence of one entity, which has none outside the box. -/
def evidenceAt [Geodesy] (r : Route) (k : String) : Except Fault (Evidence Float) :=
  if k ∈ r.box.pings.map Ping.key then r.evidenceOf k (r.pingsOf k) else .ok Evidence.nothing

/-- The evidence of each entity is that of its pings. -/
theorem getD_evidenceTable [Geodesy] {ev : Catalog String (Evidence Float)}
    (h : r.evidenceTable = .ok ev) (k : String) :
    r.evidenceAt k = .ok (ev.getD k Evidence.nothing) := by
  obtain ⟨groups, hgroups, h⟩ := Run.bind_eq_ok.mp h
  obtain ⟨es, hes, hev⟩ := Run.bind_eq_ok.mp h
  obtain rfl := Except.ok.inj hev
  rw [PingCollection.groups] at hgroups
  split_ifs at hgroups
  obtain rfl := Except.ok.inj hgroups
  rw [Catalog.tabulate, List.mapM_map] at hes
  have hget := Catalog.get?_of_mapM (f := fun k => r.evidenceOf k (r.pingsOf k)) hes k
  rw [List.mem_eraseDups] at hget
  rw [evidenceAt]
  by_cases hk : k ∈ r.box.pings.map Ping.key
  · obtain ⟨e, he, hsome⟩ := hget.1 hk
    rw [if_pos hk, Catalog.getD, hsome]
    exact he
  · rw [if_neg hk, Catalog.getD, hget.2 hk]
    rfl

/-- What the standing of an entity counts, given the grid and the cells of the tube. -/
structure IsCounted (r : Route) (grid : Grid Float) (cells : List Cell) (k : String)
    (s : Standing Float) : Prop where
  tubeCount : s.tubeCount = (r.tube.pings.map Ping.key).count k
  boxCount : s.boxCount = (r.box.pings.map Ping.key).count k
  boxCells : s.boxCells = (Coverage.touched grid r.box.pings k).card
  tubeCells : s.tubeCells = ((Coverage.touched grid r.box.pings k).filter (· ∈ cells)).card
  divisions : s.divisions = grid.divisions
  tubeSize : s.tubeSize = cells.length

/-- What the standing of an entity is, given the grid and the cells of the tube. -/
structure IsStanding [Geodesy] (r : Route) (grid : Grid Float) (cells : List Cell) (k : String)
    (s : Standing Float) : Prop extends r.IsCounted grid cells k s where
  spread : Coverage.spread grid r.box.pings cells k = .ok s.spread
  evidence : r.evidenceAt k = .ok s.evidence

/-- The standing of an entity is one. -/
theorem IsStanding.unique [Geodesy] {grid : Grid Float} {cells : List Cell} {k : String}
    {s t : Standing Float} (hs : r.IsStanding grid cells k s) (ht : r.IsStanding grid cells k t) :
    s = t := by
  have hspread := Except.ok.inj (hs.spread.symm.trans ht.spread)
  have hevidence := Except.ok.inj (hs.evidence.symm.trans ht.evidence)
  obtain ⟨s1, s2, s3, s4, s5, s6, s7, s8⟩ := s
  obtain ⟨t1, t2, t3, t4, t5, t6, t7, t8⟩ := t
  simp only [Standing.mk.injEq]
  exact ⟨hs.tubeCount.trans ht.tubeCount.symm, hs.boxCount.trans ht.boxCount.symm,
    hs.boxCells.trans ht.boxCells.symm, hs.tubeCells.trans ht.tubeCells.symm, hspread, hevidence,
    hs.divisions.trans ht.divisions.symm, hs.tubeSize.trans ht.tubeSize.symm⟩

/-- The keys of a ranking, and what each of them counts. -/
structure IsTally (r : Route) (grid : Grid Float) (cells : List Cell) (m : Rankings Float) :
    Prop where
  nodup : m.keys.Nodup
  mem_keys : ∀ k, k ∈ m.keys ↔ k ∈ r.tube.pings.map Ping.key ∨ k ∈ r.box.pings.map Ping.key
  counted : ∀ k s, m.get? k = some s → r.IsCounted grid cells k s

/-- The keys of a ranking, and what each of them has. -/
structure IsRanking [Geodesy] (r : Route) (grid : Grid Float) (cells : List Cell)
    (m : Rankings Float) : Prop extends r.IsTally grid cells m where
  standing : ∀ k s, m.get? k = some s → r.IsStanding grid cells k s

variable {extent : Extent} {shapes : List (Option Shape)} {divisions : Datum}

/-- A survey has been made if the positions are finite. -/
theorem survey_eq_ok {grid : Grid Float} {cells : List Cell} {s : Survey} :
    r.survey grid cells = .ok s ↔ (∀ p ∈ r.box.pings, p.position.isFinite = true) ∧
      Coverage.survey grid r.box.pings r.tube.pings cells = s := by
  constructor
  · intro h
    obtain ⟨counts, hcounts, hs⟩ := Run.bind_eq_ok.mp h
    have hfinite := Coverage.isFinite_of_gridCounts hcounts
    rw [Coverage.gridCounts_of_finite grid hfinite] at hcounts
    obtain rfl := Except.ok.inj hcounts
    exact ⟨hfinite, Except.ok.inj hs⟩
  · rintro ⟨hfinite, rfl⟩
    exact Run.bind_eq_ok.mpr ⟨_, Coverage.gridCounts_of_finite grid hfinite, rfl⟩

/-- The standings of a survey count its pings, whatever the spreads and the evidence are. -/
theorem isTally_standings (r : Route) (grid : Grid Float) (cells : List Cell)
    (sp : Catalog String Float) (ev : Catalog String (Evidence Float)) :
    r.IsTally grid cells
      ((Coverage.survey grid r.box.pings r.tube.pings cells).standings sp ev) := by
  refine ⟨Catalog.nodup_keys_tabulate _ _, fun k => ?_, fun k t ht => ?_⟩
  · rw [Survey.standings, Catalog.keys_tabulate, List.mem_eraseDups,
      Coverage.mem_keys_survey]
  · obtain rfl := Coverage.eq_of_get?_standings ht
    exact ⟨rfl, rfl, rfl, rfl, rfl, rfl⟩

/-- The standings of a survey are those of its pings. -/
theorem isRanking_standings [Geodesy] {grid : Grid Float} {cells : List Cell}
    {sp : Catalog String Float} {ev : Catalog String (Evidence Float)}
    (hsp : (Coverage.survey grid r.box.pings r.tube.pings cells).spreads = .ok sp)
    (hev : r.evidenceTable = .ok ev) :
    r.IsRanking grid cells
      ((Coverage.survey grid r.box.pings r.tube.pings cells).standings sp ev) := by
  have htally := isTally_standings r grid cells sp ev
  refine ⟨htally, fun k t ht => ⟨htally.counted k t ht, ?_, ?_⟩⟩
  all_goals obtain rfl := Coverage.eq_of_get?_standings ht
  · exact Coverage.getD_spreads _ hsp k
  · exact getD_evidenceTable hev k

/-- What the result of a ranking over any scalar is put together from. -/
theorem parts_of_rankOver {α : Type} [Scalar α] {evidence : Run (Catalog String (Evidence α))}
    {m : Rankings α} (h : (Run.start (r.rankOver evidence extent shapes divisions)).1 = .ok m) :
    ∃ grid cells sp ev t,
      Grid.build extent (orConfigured divisions r.settings.gridDivisions) = .ok grid ∧
      grid.cellsCovered shapes = .ok cells ∧
      (Coverage.survey grid r.box.pings r.tube.pings cells).spreads = .ok sp ∧
      (Run.resume t evidence).1 = .ok ev ∧
      m = (Coverage.survey grid r.box.pings r.tube.pings cells).standings sp ev := by
  obtain ⟨grid, t, hgrid, h⟩ := Run.resume_bind_eq_ok.mp h
  obtain ⟨cells, t, hcells, h⟩ := Run.resume_bind_eq_ok.mp h
  obtain ⟨-, t, -, h⟩ := Run.resume_bind_eq_ok.mp h
  obtain ⟨s, t, hs, h⟩ := Run.resume_bind_eq_ok.mp h
  obtain ⟨sp, t, hsp, h⟩ := Run.resume_bind_eq_ok.mp h
  obtain ⟨ev, t', hev, h⟩ := Run.resume_bind_eq_ok.mp h
  obtain ⟨-, t', -, h⟩ := Run.resume_bind_eq_ok.mp h
  obtain rfl := Except.ok.inj h
  obtain ⟨-, rfl⟩ := survey_eq_ok.mp (congrArg Prod.fst hs)
  exact ⟨grid, cells, sp, ev, t, congrArg Prod.fst hgrid, congrArg Prod.fst hcells,
    Run.mapError_eq_ok.mp (congrArg Prod.fst hsp), congrArg Prod.fst hev, rfl⟩

/-- What the result of a ranking is put together from. -/
theorem parts_of_rank [Geodesy] {m : Rankings Float}
    (h : (Run.start (r.rank extent shapes divisions)).1 = .ok m) :
    ∃ grid cells sp ev t,
      Grid.build extent (orConfigured divisions r.settings.gridDivisions) = .ok grid ∧
      grid.cellsCovered shapes = .ok cells ∧
      (Coverage.survey grid r.box.pings r.tube.pings cells).spreads = .ok sp ∧
      (Run.resume t r.evidence).1 = .ok ev ∧
      m = (Coverage.survey grid r.box.pings r.tube.pings cells).standings sp ev := by
  rw [rank_eq_rankOver] at h
  exact parts_of_rankOver h

/-- **The counts of each key**, of a ranking by any scorer that has a result. -/
theorem isTally_of_rank [Geodesy] {m : Rankings Float}
    (h : (Run.start (r.rank extent shapes divisions)).1 = .ok m) :
    ∃ grid cells, Grid.build extent (orConfigured divisions r.settings.gridDivisions) = .ok grid ∧
      grid.cellsCovered shapes = .ok cells ∧ r.IsTally grid cells m := by
  obtain ⟨grid, cells, sp, ev, -, hgrid, hcells, -, -, rfl⟩ := parts_of_rank h
  exact ⟨grid, cells, hgrid, hcells, isTally_standings r grid cells sp ev⟩

/-- **The standing of each key**: a ranking that has a result gives each key of the tube and the
box, once, the standing of the entity. -/
theorem isRanking_of_result [Geodesy] {m : Rankings Float}
    (h : r.result extent shapes divisions = .ok m) :
    ∃ grid cells, Grid.build extent (orConfigured divisions r.settings.gridDivisions) = .ok grid ∧
      grid.cellsCovered shapes = .ok cells ∧ r.IsRanking grid cells m := by
  obtain ⟨grid, hgrid, h⟩ := Run.bind_eq_ok.mp h
  obtain ⟨cells, hcells, h⟩ := Run.bind_eq_ok.mp h
  obtain ⟨s, hs, h⟩ := Run.bind_eq_ok.mp h
  obtain ⟨-, rfl⟩ := survey_eq_ok.mp hs
  obtain ⟨sp, hsp, h⟩ := Run.bind_eq_ok.mp h
  obtain ⟨ev, hev, h⟩ := Run.bind_eq_ok.mp h
  obtain rfl := Except.ok.inj h
  exact ⟨grid, cells, hgrid, hcells, isRanking_standings (Run.mapError_eq_ok.mp hsp) hev⟩

theorem isRanking_of_rank [Geodesy] {m : Rankings Float} (hpure : r.scorer.IsPure)
    (h : (Run.start (r.rank extent shapes divisions)).1 = .ok m) :
    ∃ grid cells, Grid.build extent (orConfigured divisions r.settings.gridDivisions) = .ok grid ∧
      grid.cellsCovered shapes = .ok cells ∧ r.IsRanking grid cells m :=
  isRanking_of_result ((rank_yields hpure extent shapes divisions Trace.empty).symm.trans h)

/-- Of a ranking that has a result, the times in the box can be told. -/
theorem isTellable_of_result [Geodesy] {m : Rankings Float}
    (h : r.result extent shapes divisions = .ok m) :
    ∀ p ∈ r.box.pings, PingCollection.isTellable p = true := by
  obtain ⟨grid, -, h⟩ := Run.bind_eq_ok.mp h
  obtain ⟨cells, -, h⟩ := Run.bind_eq_ok.mp h
  obtain ⟨s, -, h⟩ := Run.bind_eq_ok.mp h
  obtain ⟨sp, -, h⟩ := Run.bind_eq_ok.mp h
  obtain ⟨ev, hev, -⟩ := Run.bind_eq_ok.mp h
  obtain ⟨groups, hgroups, -⟩ := Run.bind_eq_ok.mp hev
  rw [PingCollection.groups] at hgroups
  split_ifs at hgroups with hall
  exact List.all_eq_true.mp hall

/-- The result of a ranking over any scalar, put together from its parts. -/
theorem resultOver_eq_ok {α : Type} [Scalar α]
    {evidence : Except Fault (Catalog String (Evidence α))} {grid : Grid Float} {cells : List Cell}
    {sp : Catalog String α} {ev : Catalog String (Evidence α)}
    (hgrid : Grid.build extent (orConfigured divisions r.settings.gridDivisions) = .ok grid)
    (hcells : grid.cellsCovered shapes = .ok cells)
    (hfinite : ∀ p ∈ r.box.pings, p.position.isFinite = true)
    (hsp : (Coverage.survey grid r.box.pings r.tube.pings cells).spreads = .ok sp)
    (hev : evidence = .ok ev) : r.resultOver evidence extent shapes divisions =
      .ok ((Coverage.survey grid r.box.pings r.tube.pings cells).standings sp ev) := by
  have hsurvey := survey_eq_ok.mpr
    ⟨hfinite, (rfl : Coverage.survey grid r.box.pings r.tube.pings cells = _)⟩
  refine Run.bind_eq_ok.mpr ⟨grid, hgrid, Run.bind_eq_ok.mpr ⟨cells, hcells,
    Run.bind_eq_ok.mpr ⟨_, hsurvey, ?_⟩⟩⟩
  exact Run.bind_eq_ok.mpr ⟨sp, Run.mapError_eq_ok.mpr hsp, Run.bind_eq_ok.mpr ⟨ev, hev, rfl⟩⟩

/-- A ranking has a result if all its parts have. -/
theorem exists_result [Geodesy] {grid : Grid Float} {cells : List Cell}
    (hgrid : Grid.build extent (orConfigured divisions r.settings.gridDivisions) = .ok grid)
    (hcells : grid.cellsCovered shapes = .ok cells)
    (hfinite : ∀ p ∈ r.box.pings, p.position.isFinite = true)
    (htellable : ∀ p ∈ r.box.pings, PingCollection.isTellable p = true)
    (hspread : ∀ k, Coverage.tubeTouched grid r.box.pings cells k ≠ [] →
      ∃ s : Float, Coverage.spread grid r.box.pings cells k = .ok s)
    (hevidence : ∀ k ∈ r.box.pings.map Ping.key, ∃ e, r.evidenceOf k (r.pingsOf k) = .ok e) :
    ∃ m, r.result extent shapes divisions = .ok m := by
  obtain ⟨sp, hsp⟩ := Coverage.exists_spreads r.tube.pings hspread
  have hgroups : r.box.groups = .ok (Catalog.tabulate (r.box.pings.map Ping.key) r.pingsOf) := by
    rw [PingCollection.groups, if_pos (List.all_eq_true.mpr htellable)]
    rfl
  have hentry : ∀ k ∈ (r.box.pings.map Ping.key).eraseDups,
      ∃ e : String × Evidence Float,
        (do return (k, ← r.evidenceOf k (r.pingsOf k))) = Except.ok e := by
    intro k hk
    obtain ⟨e, he⟩ := hevidence k (List.mem_eraseDups.mp hk)
    exact ⟨(k, e), Run.bind_eq_ok.mpr ⟨e, he, rfl⟩⟩
  obtain ⟨es, hes⟩ := Run.exists_mapM hentry
  have hev : r.evidenceTable = .ok ⟨es⟩ := by
    refine Run.bind_eq_ok.mpr ⟨_, hgroups, Run.bind_eq_ok.mpr ⟨es, ?_, rfl⟩⟩
    rw [Catalog.tabulate, List.mapM_map]
    exact hes
  exact ⟨_, resultOver_eq_ok hgrid hcells hfinite hsp hev⟩

end Route

end Corridor
