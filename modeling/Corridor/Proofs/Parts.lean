import Corridor.Proofs.Merging
import Corridor.Proofs.SetLevel

/-!
# Rankings of Parts

The pings around a route can be ranked in parts, whose rankings are merged. The standing of an
entity is made of its own pings, so parts that share no entity merge to the ranking of the
whole. Where an entity is in several parts, its counts add up, and a cell that two parts show
counts twice.

## Main results

* `Route.IsStanding.congr`: the standing of an entity depends on its own pings only.
* `Rankings.mergeAll_of_groups`: parts that share no entity merge to the whole.
* `Rankings.mergeAll_counts`: what merging any two parts does to counts and cells.
-/

namespace Corridor

/-! ### What a standing depends on -/

namespace Coverage

variable {g : Grid Float} {ps qs : List Ping} {cells : List Cell} {k : String}
  (h : (ps.filter fun p => p.key == k).Perm (qs.filter fun p => p.key == k))
include h

theorem touched_congr : touched g ps k = touched g qs k :=
  List.toFinset_eq_of_perm _ _ (h.map g.cellOf)

theorem visits_congr (c : Cell) : visits g ps k c = visits g qs k c := by
  have hfilter : ∀ rs : List Ping, visits g rs k c =
      (rs.filter fun p => p.key == k).countP fun p => decide (g.cellOf p = c) := by
    intro rs
    rw [visits, List.countP_filter]
    exact List.countP_congr fun p _ => by rw [Bool.and_comm]
  rw [hfilter, hfilter, h.countP_eq]

theorem tubeTouched_congr : tubeTouched g ps cells k = tubeTouched g qs cells k := by
  refine Cell.eq_of_mem_iff (tubeTouched_ordered g cells k ps) (tubeTouched_ordered g cells k qs)
    (nodup_tubeTouched g cells k ps) (nodup_tubeTouched g cells k qs) fun c => ?_
  rw [mem_tubeTouched, mem_tubeTouched, touched_congr h]

theorem spread_congr {α : Type} [Scalar α] :
    (spread g ps cells k : Except ArithmeticFault α) = spread g qs cells k := by
  simp only [spread]
  rw [tubeTouched_congr h]
  simp only [visits_congr h]

theorem count_keys_congr : (ps.map Ping.key).count k = (qs.map Ping.key).count k := by
  have hfilter : ∀ rs : List Ping,
      (rs.map Ping.key).count k = (rs.filter fun p => p.key == k).length := by
    intro rs
    rw [List.count, List.countP_map, List.countP_eq_length_filter]
    rfl
  rw [hfilter, hfilter, h.length_eq]

theorem mem_keys_congr : k ∈ ps.map Ping.key ↔ k ∈ qs.map Ping.key := by
  rw [← List.count_pos_iff, ← List.count_pos_iff, count_keys_congr h]

end Coverage

namespace Route

/-- The route of a run over two lists of pings. -/
def ofPings (scorer : Scorer) (settings : Settings) (box tube : List Ping) : Route :=
  ⟨scorer, .ofList box, .ofList tube, settings⟩

variable {scorer : Scorer} {settings : Settings} {box tube box' tube' : List Ping}
  {grid : Grid Float} {cells : List Cell} {k : String} {s : Standing Float}

/-- The pings of the entity are the same in two boxes and in two tubes. -/
structure SamePings (r r' : Route) (k : String) : Prop where
  box : r.pingsOf k = r'.pingsOf k
  tube : (r.tube.pings.filter fun p => p.key == k) = r'.tube.pings.filter fun p => p.key == k

/-- The pings of the entity are the same in two boxes and in two tubes, up to their order, and
so is its evidence. -/
structure Resembles [Geodesy] (r r' : Route) (k : String) : Prop where
  box : (r.pingsOf k).Perm (r'.pingsOf k)
  tube : (r.tube.pings.filter fun p => p.key == k).Perm
    (r'.tube.pings.filter fun p => p.key == k)
  evidence : r.evidenceAt k = r'.evidenceAt k

/-- The evidence of an entity is that of its pings in the box, if it is in the tube. -/
theorem evidenceAt_congr [Geodesy] {r r' : Route} (hbox : (r.pingsOf k).Perm (r'.pingsOf k))
    (htube : (r.tube.pings.filter fun p => p.key == k).Perm
      (r'.tube.pings.filter fun p => p.key == k))
    (hscored : Evidence.ofPure r.scorer r.settings.motionLimits (.whole r.settings.routeDivisions)
      (r.pingsOf k) = Evidence.ofPure r'.scorer r'.settings.motionLimits
        (.whole r'.settings.routeDivisions) (r'.pingsOf k)) :
    r.evidenceAt k = r'.evidenceAt k := by
  have hcontains : r.tube.countKeys.contains k = r'.tube.countKeys.contains k := by
    rw [Bool.eq_iff_iff, PingCollection.countKeys, PingCollection.countKeys,
      Catalog.contains_tally, Catalog.contains_tally]
    exact Coverage.mem_keys_congr htube
  simp only [Route.evidenceAt, evidenceOf]
  simp only [Coverage.mem_keys_congr hbox, hscored, hcontains]

theorem SamePings.resembles [Geodesy] {r r' : Route} (h : SamePings r r' k)
    (hscorer : r.scorer = r'.scorer) (hsettings : r.settings = r'.settings) : Resembles r r' k :=
  ⟨.of_eq h.box, .of_eq h.tube, evidenceAt_congr (.of_eq h.box) (.of_eq h.tube)
    (by rw [h.box, hscorer, hsettings])⟩

/-- **The standing of an entity depends on its own pings only.** -/
theorem IsStanding.congr [Geodesy] {r r' : Route} (h : r.IsStanding grid cells k s)
    (hsame : Resembles r r' k) : r'.IsStanding grid cells k s := by
  refine ⟨⟨?_, ?_, ?_, ?_, h.divisions, h.tubeSize⟩, ?_, ?_⟩
  · rw [h.tubeCount, Coverage.count_keys_congr hsame.tube]
  · rw [h.boxCount, Coverage.count_keys_congr hsame.box]
  · rw [h.boxCells, Coverage.touched_congr hsame.box]
  · rw [h.tubeCells, Coverage.touched_congr hsame.box]
  · rw [← h.spread, Coverage.spread_congr hsame.box]
  · rw [← h.evidence, hsame.evidence]

theorem Resembles.mem_keys [Geodesy] {r r' : Route} {m m' : Rankings Float}
    (hsame : Resembles r r' k) (h : r.IsTally grid cells m) (h' : r'.IsTally grid cells m') :
    k ∈ m.keys ↔ k ∈ m'.keys := by
  rw [h.mem_keys, h'.mem_keys, Coverage.mem_keys_congr hsame.tube,
    Coverage.mem_keys_congr hsame.box]

/-- Two rankings on one grid give the same standing to an entity with the same pings. -/
theorem IsRanking.get?_eq [Geodesy] {r r' : Route} {m m' : Rankings Float}
    (h : r.IsRanking grid cells m) (h' : r'.IsRanking grid cells m') (hsame : Resembles r r' k) :
    m.get? k = m'.get? k := by
  have hkeys := hsame.mem_keys h.toIsTally h'.toIsTally
  cases hget : m.get? k with
  | none =>
      have hnot := mt hkeys.mpr (Catalog.get?_eq_none_iff.mp hget)
      exact (Catalog.get?_eq_none_iff.mpr hnot).symm
  | some s =>
      have hk := hkeys.mp (Catalog.isSome_get?_iff.mp (Option.isSome_of_eq_some hget))
      obtain ⟨t, hget'⟩ := Option.isSome_iff_exists.mp (Catalog.isSome_get?_iff.mpr hk)
      have hs := (h.standing k s hget).congr hsame
      rw [hget', hs.unique (h'.standing k t hget')]

theorem IsTally.onGrid {r : Route} {m : Rankings Float} (h : r.IsTally grid cells m) :
    m.OnGrid (grid.divisions, cells.length) := by
  intro k s hs
  have hcounted := h.counted k s hs
  rw [Standing.grid, hcounted.divisions, hcounted.tubeSize]

end Route

/-! ### A sample -/

/-- A scorer that finds no motion in any track. -/
def Scorer.silent : Scorer := fun _ _ _ => .ok (.real 0)

theorem Scorer.silent_scoresBy : silent.ScoresBy fun _ _ => 0 :=
  ⟨fun _ _ _ _ => rfl, fun _ _ => ⟨_, rfl, rfl⟩⟩

/-- Without motion, rankings exist on the grid of the sample. -/
theorem Route.exists_rank_silent [Geodesy] {box : List Ping} (tube : List Ping)
    (htellable : ∀ p ∈ (PingCollection.ofList box).pings, PingCollection.isTellable p = true)
    (hsize : box.length ≤ 2 ^ 63) :
    ∃ m, (Run.start ((ofPings Scorer.silent Settings.preset box tube).rank (.bounds [0, 0, 2, 2])
      [some (Shape.box 0 0 1 1)] (.whole (2 : ℕ)))).1 = .ok m := by
  obtain ⟨grid, hgrid, hcard⟩ := exists_sampleGrid
  obtain ⟨cells, hcovered, hnodup, hmem⟩ := Grid.exists_cellsCovered hgrid _
  have hcells : cells.length ≤ 2 ^ 63 := by
    rw [← List.toFinset_card_of_nodup hnodup]
    refine (Grid.card_le_size fun c hc => (hmem c).mp (List.mem_toFinset.mp hc)).trans ?_
    rw [hcard]
    decide
  have hbox := PingCollection.isValid_ofList box
  have hlength : (PingCollection.ofList box).size ≤ 2 ^ 63 := by
    rw [PingCollection.size, PingCollection.pings_ofList, List.length_map]
    exact (List.length_filter_le _ _).trans hsize
  refine exists_rank Scorer.silent_scoresBy hbox htellable hgrid hcovered hnodup hlength hcells
    (by omega) ?_
  intro k _ scores hscores
  obtain ⟨tracklets, -, rfl⟩ := hscores
  rw [Evidence.scoresOf, List.map_const']
  exact Evidence.sumsFit_zeros _

/-- Two observations of one entity in one cell, and one of another. -/
def samplePings : List Ping :=
  [Route.samplePing, ⟨1, "b", 1.5, 0.5, some ⟨5, none⟩⟩, ⟨2, "a", 0.5, 0.5, some ⟨9, none⟩⟩]

theorem samplePings_uniform : Ping.UniformTimes samplePings := by
  refine ⟨false, fun p hp t ht => ?_⟩
  simp only [samplePings, Route.samplePing, List.mem_cons, List.not_mem_nil, or_false] at hp
  rcases hp with rfl | rfl | rfl <;> cases ht <;> rfl

/-! ### Parts that share no entity -/

/-- The pings of the entities of one group. -/
def ofGroup (group : String → ℕ) (i : ℕ) (ps : List Ping) : List Ping :=
  ps.filter fun p => group p.key = i

namespace Route

variable {scorer : Scorer} {settings : Settings} {box tube : List Ping} {group : String → ℕ}
  {grid : Grid Float} {cells : List Cell} {k : String} {whole part : Rankings Float} {i : ℕ}

/-- Of a key in the ranking, there is a ping. -/
theorem IsTally.exists_ping (h : (ofPings scorer settings box tube).IsTally grid cells whole)
    (hk : k ∈ whole.keys) : ∃ p ∈ box ++ tube, p.key = k := by
  rcases (h.mem_keys k).mp hk with hk | hk
  · obtain ⟨p, hp, -, hkey⟩ := PingCollection.mem_keys_ofList.mp hk
    exact ⟨p, List.mem_append_right _ hp, hkey⟩
  · obtain ⟨p, hp, -, hkey⟩ := PingCollection.mem_keys_ofList.mp hk
    exact ⟨p, List.mem_append_left _ hp, hkey⟩

/-- The ranking of a group has the standings of its entities, as they are in the whole. -/
theorem IsRanking.get?_ofGroup [Geodesy]
    (hwhole : (ofPings scorer settings box tube).IsRanking grid cells whole)
    (hpart : (ofPings scorer settings (ofGroup group i box) (ofGroup group i tube)).IsRanking grid
      cells part) (hbox : Ping.UniformTimes box) (htube : Ping.UniformTimes tube) (k : String) :
    part.get? k = if group k = i then whole.get? k else none := by
  split_ifs with hgroup
  · have hkeep : ∀ ps : List Ping, ∀ p ∈ ps, p.key = k → decide (group p.key = i) = true := by
      rintro ps p - rfl
      exact decide_eq_true hgroup
    have hsame : SamePings (ofPings scorer settings (ofGroup group i box) (ofGroup group i tube))
        (ofPings scorer settings box tube) k :=
      ⟨PingCollection.filter_ofList hbox (hkeep box),
        PingCollection.filter_ofList htube (hkeep tube)⟩
    exact hpart.get?_eq hwhole (hsame.resembles rfl rfl)
  · rw [Catalog.get?_eq_none_iff]
    intro hk
    obtain ⟨p, hp, rfl⟩ := hpart.toIsTally.exists_ping hk
    rw [ofGroup, ofGroup, ← List.filter_append, List.mem_filter, decide_eq_true_eq] at hp
    exact hgroup hp.2

end Route

/-- A list that one of the first numbers gives. -/
theorem flatMap_range_ite {α : Type} (n i : ℕ) (l : List α) :
    ((List.range n).flatMap fun j => if i = j then l else []) = if i < n then l else [] := by
  induction n with
  | zero => rfl
  | succ n ih =>
      rw [List.range_succ, List.flatMap_append, ih, List.flatMap_singleton]
      by_cases hi : i = n
      · subst hi
        simp
      · have hlt : i < n + 1 ↔ i < n := by omega
        simp [hi, hlt]

/-- **Parts that share no entity merge to the whole**: the entities are put into groups, the
pings of each group are ranked on their own, and the merge of the rankings has the entries of one
ranking of all pings. -/
theorem Rankings.mergeAll_of_groups [Geodesy] (scorer : Scorer) (settings : Settings)
    (extent : Extent) (shapes : List (Option Shape)) (divisions : Datum) {box tube : List Ping}
    {group : String → ℕ} {n : ℕ} {whole : Rankings Float} {part : ℕ → Rankings Float}
    (hpure : scorer.IsPure) (hbox : Ping.UniformTimes box) (htube : Ping.UniformTimes tube)
    (hgroup : ∀ p ∈ box ++ tube, group p.key < n)
    (hwhole : (Run.start ((Route.ofPings scorer settings box tube).rank extent shapes
      divisions)).1 = .ok whole)
    (hpart : ∀ i < n, (Run.start ((Route.ofPings scorer settings (ofGroup group i box)
      (ofGroup group i tube)).rank extent shapes divisions)).1 = .ok (part i)) :
    ∃ merged, mergeAll ((List.range n).map part) = .ok merged ∧
      merged.entries.Perm whole.entries := by
  obtain ⟨grid, cells, hgrid, hcells, hranking⟩ := Route.isRanking_of_rank hpure hwhole
  have hparts : ∀ i < n, (Route.ofPings scorer settings (ofGroup group i box)
      (ofGroup group i tube)).IsRanking grid cells (part i) := by
    intro i hi
    obtain ⟨grid', cells', hgrid', hcells', hpart'⟩ := Route.isRanking_of_rank hpure (hpart i hi)
    obtain rfl := Except.ok.inj (hgrid.symm.trans hgrid')
    obtain rfl := Except.ok.inj (hcells.symm.trans hcells')
    exact hpart'
  have hnodup : ∀ m ∈ (List.range n).map part, m.keys.Nodup := by
    intro m hm
    obtain ⟨i, hi, rfl⟩ := List.mem_map.mp hm
    exact (hparts i (List.mem_range.mp hi)).nodup
  have honGrid : ∀ m ∈ (List.range n).map part, m.OnGrid (grid.divisions, cells.length) := by
    intro m hm
    obtain ⟨i, hi, rfl⟩ := List.mem_map.mp hm
    exact (hparts i (List.mem_range.mp hi)).onGrid
  obtain ⟨merged, hmerged, hkeys, hget⟩ := exists_mergeAll hnodup honGrid
  refine ⟨merged, hmerged, Catalog.entries_perm hkeys hranking.nodup fun k => ?_⟩
  -- of the parts, only that of the group of the key has a standing for it
  have hvalue : ∀ i ∈ List.range n, ((part i).get? k).toList =
      if group k = i then (whole.get? k).toList else [] := by
    intro i hi
    rw [hranking.get?_ofGroup (hparts i (List.mem_range.mp hi)) hbox htube k]
    split_ifs <;> rfl
  have hvalues : ((List.range n).map part).flatMap (fun m => (m.get? k).toList) =
      if group k < n then (whole.get? k).toList else [] := by
    rw [List.flatMap_map, List.flatMap_congr hvalue, flatMap_range_ite]
  have hmerge := hget k
  rw [hvalues] at hmerge
  cases hwhole' : whole.get? k with
  | none =>
      rw [hwhole', Option.toList_none, ite_self] at hmerge
      exact (Except.ok.inj hmerge).symm
  | some s =>
      have hk := Catalog.isSome_get?_iff.mp (Option.isSome_of_eq_some hwhole')
      obtain ⟨p, hp, rfl⟩ := hranking.toIsTally.exists_ping hk
      rw [hwhole', if_pos (hgroup p hp)] at hmerge
      exact (Except.ok.inj hmerge).symm

theorem samplePings_tellable :
    ∀ p ∈ (PingCollection.ofList samplePings).pings, PingCollection.isTellable p = true := by
  decide +kernel

/-- The group of a key in the sample. -/
def sampleGroup (k : String) : ℕ := if k = "a" then 0 else 1

theorem Rankings.mergeAll_of_groups_sample : ∃ (whole : Rankings Float) (part : ℕ → Rankings Float)
    (merged : Rankings Float),
    (Run.start ((Route.ofPings Scorer.silent Settings.preset samplePings [Route.samplePing]).rank
      (.bounds [0, 0, 2, 2]) [some (Shape.box 0 0 1 1)] (.whole (2 : ℕ)))).1 = .ok whole ∧
    (∀ i < 2, (Run.start ((Route.ofPings Scorer.silent Settings.preset
      (ofGroup sampleGroup i samplePings) (ofGroup sampleGroup i [Route.samplePing])).rank
      (.bounds [0, 0, 2, 2]) [some (Shape.box 0 0 1 1)] (.whole (2 : ℕ)))).1 = .ok (part i)) ∧
    mergeAll ((List.range 2).map part) = .ok merged ∧ merged.entries.Perm whole.entries := by
  have htellable : ∀ i < 2, ∀ p ∈ (PingCollection.ofList (ofGroup sampleGroup i samplePings)).pings,
      PingCollection.isTellable p = true := by
    decide +kernel
  obtain ⟨whole, hwhole⟩ := Route.exists_rank_silent [Route.samplePing]
    samplePings_tellable (by decide)
  have hparts : ∀ i, ∃ m, i < 2 → (Run.start ((Route.ofPings Scorer.silent Settings.preset
      (ofGroup sampleGroup i samplePings) (ofGroup sampleGroup i [Route.samplePing])).rank
      (.bounds [0, 0, 2, 2]) [some (Shape.box 0 0 1 1)] (.whole (2 : ℕ)))).1 = .ok m := by
    intro i
    by_cases hi : i < 2
    · obtain ⟨m, hm⟩ := Route.exists_rank_silent (ofGroup sampleGroup i [Route.samplePing])
        (htellable i hi) ((List.length_filter_le _ _).trans (by decide))
      exact ⟨m, fun _ => hm⟩
    · exact ⟨whole, fun h => absurd h hi⟩
  choose part hpart using hparts
  have htube : Ping.UniformTimes [Route.samplePing] :=
    samplePings_uniform.mono (by simp [samplePings])
  have hgroup : ∀ p ∈ samplePings ++ [Route.samplePing], sampleGroup p.key < 2 := by decide
  obtain ⟨merged, hmerged, hperm⟩ := mergeAll_of_groups Scorer.silent Settings.preset
    (.bounds [0, 0, 2, 2]) [some (Shape.box 0 0 1 1)] (.whole (2 : ℕ))
    Scorer.silent_scoresBy.pure samplePings_uniform htube hgroup hwhole hpart
  exact ⟨whole, part, merged, hwhole, hpart, hmerged, hperm⟩

/-! ### Any two parts -/

/-- The cells in which two lists of pings both show an entity. -/
def Coverage.shared (g : Grid Float) (ps qs : List Ping) (k : String) : Finset Cell :=
  touched g (PingCollection.ofList ps).pings k ∩ touched g (PingCollection.ofList qs).pings k

namespace PingCollection

variable {ps ps₁ ps₂ : List Ping} (h : (ps₁ ++ ps₂).Perm ps) (k : String)
include h

/-- How often a key occurs adds up over two parts. -/
theorem count_keys_of_perm : ((ofList ps).pings.map Ping.key).count k =
    ((ofList ps₁).pings.map Ping.key).count k + ((ofList ps₂).pings.map Ping.key).count k := by
  rw [count_keys_ofList, count_keys_ofList, count_keys_ofList, ← h.countP_eq, List.countP_append]

theorem mem_keys_of_perm : k ∈ (ofList ps).pings.map Ping.key ↔
    k ∈ (ofList ps₁).pings.map Ping.key ∨ k ∈ (ofList ps₂).pings.map Ping.key := by
  rw [← List.count_pos_iff, ← List.count_pos_iff, ← List.count_pos_iff, count_keys_of_perm h]
  omega

/-- The cells in which an entity is seen are those of either part. -/
theorem touched_of_perm (g : Grid Float) : Coverage.touched g (ofList ps).pings k =
    Coverage.touched g (ofList ps₁).pings k ∪ Coverage.touched g (ofList ps₂).pings k := by
  ext c
  rw [Finset.mem_union, mem_touched_ofList, mem_touched_ofList, mem_touched_ofList]
  simp only [← h.mem_iff, List.mem_append, or_and_right, exists_or]

/-- Cells that both parts show are counted once in the whole. -/
theorem card_touched_of_perm (g : Grid Float) (p : Cell → Prop) [DecidablePred p] :
    ((Coverage.touched g (ofList ps).pings k).filter p).card +
      ((Coverage.shared g ps₁ ps₂ k).filter p).card =
        ((Coverage.touched g (ofList ps₁).pings k).filter p).card +
          ((Coverage.touched g (ofList ps₂).pings k).filter p).card := by
  rw [touched_of_perm h, Coverage.shared, Finset.filter_union, Finset.filter_inter_distrib,
    Finset.card_union_add_card_inter]

end PingCollection

namespace Route

/-- The standing of a key that is not in a ranking counts nothing. -/
theorem IsTally.counted_getD {r : Route} {grid : Grid Float} {cells : List Cell}
    {m : Rankings Float} (h : r.IsTally grid cells m) (k : String) :
    r.IsCounted grid cells k
      ((m.get? k).getD (Standing.empty grid.divisions cells.length)) := by
  cases hget : m.get? k with
  | some s => exact h.counted k s hget
  | none =>
      have hk := Catalog.get?_eq_none_iff.mp hget
      rw [h.mem_keys, not_or] at hk
      have htouched : Coverage.touched grid r.box.pings k = ∅ := by
        rw [Finset.eq_empty_iff_forall_notMem]
        intro c hc
        obtain ⟨p, hp, hkey, -⟩ := Coverage.mem_touched.mp hc
        exact hk.2 (List.mem_map.mpr ⟨p, hp, hkey⟩)
      constructor
      · rw [List.count_eq_zero.mpr hk.1]
        rfl
      · rw [List.count_eq_zero.mpr hk.2]
        rfl
      · rw [htouched]
        rfl
      · rw [htouched]
        rfl
      · rfl
      · rfl

end Route

/-- How the standing that two parts of the pings merge to compares with that of the whole: it
counts the same pings, and the cells that both parts show twice. -/
structure Standing.CountsTwice (shared : Finset Cell) (cells : List Cell)
    (merged whole : Standing Float) : Prop where
  tubeCount : merged.tubeCount = whole.tubeCount
  boxCount : merged.boxCount = whole.boxCount
  boxCells : merged.boxCells = whole.boxCells + shared.card
  tubeCells : merged.tubeCells = whole.tubeCells + (shared.filter (· ∈ cells)).card
  exact_iff : merged.boxCells = whole.boxCells ∧ merged.tubeCells = whole.tubeCells ↔ shared = ∅

/-- The sum of the standings in two parts counts the pings of the whole, and cells twice that both
parts show. -/
theorem Standing.IsSum.countsTwice {scorer : Scorer} {settings : Settings} {grid : Grid Float}
    {cells : List Cell} {k : String} {box box₁ box₂ tube tube₁ tube₂ : List Ping}
    (hbox : (box₁ ++ box₂).Perm box) (htube : (tube₁ ++ tube₂).Perm tube)
    {a b merged whole : Standing Float}
    (ha : (Route.ofPings scorer settings box₁ tube₁).IsCounted grid cells k a)
    (hb : (Route.ofPings scorer settings box₂ tube₂).IsCounted grid cells k b)
    (hwhole : (Route.ofPings scorer settings box tube).IsCounted grid cells k whole)
    (hsum : IsSum a b merged) :
    merged.CountsTwice (Coverage.shared grid box₁ box₂ k) cells whole := by
  have hboxCells : merged.boxCells = whole.boxCells + (Coverage.shared grid box₁ box₂ k).card := by
    have hcard := PingCollection.card_touched_of_perm hbox k grid fun _ => True
    simp only [Finset.filter_true] at hcard
    rw [hsum.boxCells, ha.boxCells, hb.boxCells, hwhole.boxCells]
    exact_mod_cast hcard.symm
  have htubeCells : merged.tubeCells =
      whole.tubeCells + ((Coverage.shared grid box₁ box₂ k).filter (· ∈ cells)).card := by
    have hcard := PingCollection.card_touched_of_perm hbox k grid (· ∈ cells)
    rw [hsum.tubeCells, ha.tubeCells, hb.tubeCells, hwhole.tubeCells]
    exact_mod_cast hcard.symm
  refine ⟨?_, ?_, hboxCells, htubeCells, ?_, ?_⟩
  · rw [hsum.tubeCount, ha.tubeCount, hb.tubeCount, hwhole.tubeCount]
    exact_mod_cast (PingCollection.count_keys_of_perm htube k).symm
  · rw [hsum.boxCount, ha.boxCount, hb.boxCount, hwhole.boxCount]
    exact_mod_cast (PingCollection.count_keys_of_perm hbox k).symm
  · rintro ⟨hexact, -⟩
    rw [← Finset.card_eq_zero]
    omega
  · intro hempty
    rw [hboxCells, htubeCells, hempty, Finset.filter_empty]
    simp

/-- **What merging does to counts**: however the pings are put into two parts, the rankings of the
parts merge to one with the keys of the whole. The counts of each key are those of the whole, and
the cells are too, but for those that both parts show, which count twice. -/
theorem Rankings.mergeAll_counts [Geodesy] (scorer : Scorer) (settings : Settings) (extent : Extent)
    (shapes : List (Option Shape)) (divisions : Datum)
    {box box₁ box₂ tube tube₁ tube₂ : List Ping} {whole m₁ m₂ : Rankings Float}
    (hbox : (box₁ ++ box₂).Perm box) (htube : (tube₁ ++ tube₂).Perm tube)
    (hwhole : (Run.start ((Route.ofPings scorer settings box tube).rank extent shapes
      divisions)).1 = .ok whole)
    (h₁ : (Run.start ((Route.ofPings scorer settings box₁ tube₁).rank extent shapes
      divisions)).1 = .ok m₁)
    (h₂ : (Run.start ((Route.ofPings scorer settings box₂ tube₂).rank extent shapes
      divisions)).1 = .ok m₂) :
    ∃ grid cells merged,
      Grid.build extent (Route.orConfigured divisions settings.gridDivisions) = .ok grid ∧
      grid.cellsCovered shapes = .ok cells ∧ mergeAll [m₁, m₂] = .ok merged ∧
      (∀ k, k ∈ merged.keys ↔ k ∈ whole.keys) ∧
      ∀ k s t, merged.get? k = some s → whole.get? k = some t →
        s.CountsTwice (Coverage.shared grid box₁ box₂ k) cells t := by
  obtain ⟨grid, cells, hgrid, hcells, hwhole⟩ := Route.isTally_of_rank hwhole
  obtain ⟨grid', cells', hgrid', hcells', h₁⟩ := Route.isTally_of_rank h₁
  obtain rfl := Except.ok.inj (hgrid.symm.trans hgrid')
  obtain rfl := Except.ok.inj (hcells.symm.trans hcells')
  obtain ⟨grid', cells', hgrid', hcells', h₂⟩ := Route.isTally_of_rank h₂
  obtain rfl := Except.ok.inj (hgrid.symm.trans hgrid')
  obtain rfl := Except.ok.inj (hcells.symm.trans hcells')
  have hnodup : ∀ m ∈ [m₁, m₂], m.keys.Nodup := by
    simpa using ⟨h₁.nodup, h₂.nodup⟩
  have honGrid : ∀ m ∈ [m₁, m₂], m.OnGrid (grid.divisions, cells.length) := by
    simpa using ⟨h₁.onGrid, h₂.onGrid⟩
  obtain ⟨merged, hmerged, -, hget⟩ := exists_mergeAll hnodup honGrid
  simp only [List.flatMap_cons, List.flatMap_nil, List.append_nil] at hget
  refine ⟨grid, cells, merged, hgrid, hcells, hmerged, fun k => ?_, fun k s t hs ht => ?_⟩
  · rw [← Catalog.isSome_get?_iff, Standing.isSome_of_foldlM (hget k), Catalog.isSome_get?_iff,
      Catalog.isSome_get?_iff, h₁.mem_keys, h₂.mem_keys, hwhole.mem_keys]
    have hboxKeys := PingCollection.mem_keys_of_perm hbox k
    have htubeKeys := PingCollection.mem_keys_of_perm htube k
    unfold Route.ofPings
    dsimp only
    rw [hboxKeys, htubeKeys]
    tauto
  · have hfold := hget k
    rw [hs] at hfold
    exact (Standing.isSum_of_foldlM grid.divisions cells.length hfold).countsTwice hbox htube
      (h₁.counted_getD k) (h₂.counted_getD k) (hwhole.counted k t ht)

theorem Rankings.mergeAll_counts_sample : ∃ (whole m₁ m₂ : Rankings Float) (grid : Grid Float)
    (cells : List Cell) (merged : Rankings Float),
    (Run.start ((Route.ofPings Scorer.silent Settings.preset samplePings [Route.samplePing]).rank
      (.bounds [0, 0, 2, 2]) [some (Shape.box 0 0 1 1)] (.whole (2 : ℕ)))).1 = .ok whole ∧
    mergeAll [m₁, m₂] = .ok merged ∧ (∀ k, k ∈ merged.keys ↔ k ∈ whole.keys) ∧
    ∀ k s t, merged.get? k = some s → whole.get? k = some t →
      s.CountsTwice (Coverage.shared grid (samplePings.take 2) (samplePings.drop 2) k) cells t := by
  obtain ⟨whole, hwhole⟩ := Route.exists_rank_silent [Route.samplePing]
    samplePings_tellable (by decide)
  obtain ⟨m₁, h₁⟩ := Route.exists_rank_silent [Route.samplePing]
    (show ∀ p ∈ (PingCollection.ofList (samplePings.take 2)).pings,
      PingCollection.isTellable p = true by decide +kernel) (by decide)
  obtain ⟨m₂, h₂⟩ := Route.exists_rank_silent []
    (show ∀ p ∈ (PingCollection.ofList (samplePings.drop 2)).pings,
      PingCollection.isTellable p = true by decide +kernel) (by decide)
  have hbox : (samplePings.take 2 ++ samplePings.drop 2).Perm samplePings :=
    .of_eq (List.take_append_drop 2 samplePings)
  have htube : ([Route.samplePing] ++ []).Perm [Route.samplePing] := .refl _
  obtain ⟨grid, cells, merged, -, -, hmerged, hkeys, hcounts⟩ := mergeAll_counts Scorer.silent
    Settings.preset (.bounds [0, 0, 2, 2]) [some (Shape.box 0 0 1 1)] (.whole (2 : ℕ)) hbox htube
    hwhole h₁ h₂
  exact ⟨whole, m₁, m₂, grid, cells, merged, hwhole, hmerged, hkeys, hcounts⟩

end Corridor
