import Corridor.Proofs.Exact
import Corridor.Proofs.Merging

/-!
# Merging in Any Order and Any Nesting

Rankings can be merged all at once, or some of them first and the results later. A `Nesting` is
such a way of merging. What it gives each key is a standing to which the standings of the key are
merged in some nesting (`Standing.IsMergeOf`); the counts of it are sums over those standings,
and in exact arithmetic its other fields are determined by them as well, whatever their order.

A merge is refused if standings of a key are on different grids, and some merge of a nesting is
bound to notice.

## Main results

* `Nesting.isKnownOf_of_merged`: what a nesting gives each key.
* `Nesting.refused_iff`: when a nesting is refused.
* `Standing.IsMergeOf.eq_of_perm`: exact merging does not depend on order and nesting.
* `Rankings.merged_any_way`: all ways of merging listed rankings give the same.
-/

namespace Corridor

/-! ### Ways of merging -/

/-- A way of merging items: one of them as it is, or the merge of what several ways give. -/
inductive Nesting (ι : Type) where
  | single (i : ι)
  | merge (parts : List (Nesting ι))

namespace Nesting

variable {ι α : Type}

/-- The items that are merged, from left to right. -/
def leaves : Nesting ι → List ι
  | single i => [i]
  | merge parts => parts.flatMap leaves

/-- The rankings that the items stand for, merged in this way. -/
def merged [Scalar α] (maps : ι → Rankings α) : Nesting ι → Except Fault (Rankings α)
  | single i => .ok (maps i)
  | merge parts => do Rankings.mergeAll (← parts.mapM (merged maps))

/-- A merge is refused because grids differ. -/
def IsRefused [Scalar α] (maps : ι → Rankings α) (n : Nesting ι) : Prop :=
  ∃ f, n.merged maps = .error f ∧ f.kind = .incompatibleMerge

/-- What holds of items, and of a merge if it holds of its parts, holds of all ways. -/
theorem induction {P : Nesting ι → Prop} (single : ∀ i, P (single i))
    (merge : ∀ parts, (∀ n ∈ parts, P n) → P (merge parts)) : ∀ n, P n
  | .single i => single i
  | .merge parts => merge parts fun n _ => induction single merge n

end Nesting

/-! ### What standings are merged to -/

namespace Standing

variable {α : Type} [Scalar α]

/-- A standing to which listed standings are merged, in their order and in some nesting. -/
inductive IsMergeOf : List (Standing α) → Standing α → Prop
  | single (s : Standing α) : IsMergeOf [s] s
  | merge {xs ys : List (Standing α)} {a b s : Standing α} :
      IsMergeOf xs a → IsMergeOf ys b → a.merge b = .ok s → IsMergeOf (xs ++ ys) s

theorem IsMergeOf.ne_nil {xs : List (Standing α)} {s : Standing α} (h : IsMergeOf xs s) :
    xs ≠ [] := by
  induction h with
  | single s => exact List.cons_ne_nil s []
  | merge _ _ _ iha _ => exact List.append_ne_nil_of_left_ne_nil iha _

/-- What is known of an entity if standings of it are merged: of none, nothing. -/
def IsKnownOf (xs : List (Standing α)) : Option (Standing α) → Prop
  | none => xs = []
  | some s => IsMergeOf xs s

theorem isKnownOf_toList (o : Option (Standing α)) : IsKnownOf o.toList o := by
  cases o with
  | none => rfl
  | some s => exact .single s

theorem IsKnownOf.isSome_iff {xs : List (Standing α)} {o : Option (Standing α)}
    (h : IsKnownOf xs o) : o.isSome ↔ xs ≠ [] := by
  cases o with
  | none =>
      obtain rfl : xs = [] := h
      simp
  | some s => simpa using IsMergeOf.ne_nil h

/-- One more piece of knowledge is merged onto what is known. -/
theorem IsKnownOf.append {xs ys : List (Standing α)} {known o o' : Option (Standing α)}
    (hknown : IsKnownOf xs known) (ho : IsKnownOf ys o)
    (h : o.toList.foldlM mergeOnto known = .ok o') : IsKnownOf (xs ++ ys) o' := by
  cases o with
  | none =>
      obtain rfl : ys = [] := ho
      obtain rfl := Except.ok.inj h
      rwa [List.append_nil]
  | some s =>
      cases known with
      | none =>
          obtain rfl : xs = [] := hknown
          obtain rfl := Except.ok.inj h
          exact ho
      | some t =>
          rw [Option.toList_some, List.foldlM_cons] at h
          obtain ⟨o₁, honto, h⟩ := Run.bind_eq_ok.mp h
          obtain ⟨u, hu, hsome⟩ := Run.bind_eq_ok.mp honto
          obtain rfl := Except.ok.inj hsome
          obtain rfl := Except.ok.inj h
          exact .merge hknown ho hu

/-- A standing has the counts of listed standings together, and is on the grid of each. -/
structure CountsAll (xs : List (Standing α)) (s : Standing α) : Prop where
  tubeCount : s.tubeCount = (xs.map tubeCount).sum
  boxCount : s.boxCount = (xs.map boxCount).sum
  boxCells : s.boxCells = (xs.map boxCells).sum
  tubeCells : s.tubeCells = (xs.map tubeCells).sum
  grid : ∀ x ∈ xs, x.grid = s.grid

/-- The fields of two standings that are integers agree. -/
structure SameCounts (a b : Standing α) : Prop where
  tubeCount : a.tubeCount = b.tubeCount
  boxCount : a.boxCount = b.boxCount
  boxCells : a.boxCells = b.boxCells
  tubeCells : a.tubeCells = b.tubeCells
  divisions : a.divisions = b.divisions
  tubeSize : a.tubeSize = b.tubeSize

/-- Standings that merge are on the grid of what they merge to. -/
theorem grid_of_merge {a b s : Standing α} (h : a.merge b = .ok s) :
    a.grid = s.grid ∧ b.grid = s.grid := by
  rw [merge] at h
  split_ifs at h with hgrid
  obtain rfl := Except.ok.inj h
  exact ⟨rfl, hgrid.symm⟩

namespace IsMergeOf

variable {xs ys : List (Standing α)} {s a b : Standing α}

/-- What standings are merged to counts what they count. -/
theorem countsAll (h : IsMergeOf xs s) : CountsAll xs s := by
  induction h with
  | single s =>
      refine ⟨?_, ?_, ?_, ?_, fun x hx => congrArg Standing.grid (List.mem_singleton.mp hx)⟩
      all_goals exact (List.sum_singleton).symm
  | @merge xs ys a b s _ _ h iha ihb =>
      have hsum := isSum_of_merge h
      obtain ⟨hgrida, hgridb⟩ := grid_of_merge h
      refine ⟨?_, ?_, ?_, ?_, fun x hx => ?_⟩
      · rw [hsum.tubeCount, iha.tubeCount, ihb.tubeCount, List.map_append, List.sum_append]
      · rw [hsum.boxCount, iha.boxCount, ihb.boxCount, List.map_append, List.sum_append]
      · rw [hsum.boxCells, iha.boxCells, ihb.boxCells, List.map_append, List.sum_append]
      · rw [hsum.tubeCells, iha.tubeCells, ihb.tubeCells, List.map_append, List.sum_append]
      · rcases List.mem_append.mp hx with hx | hx
        · exact (iha.grid x hx).trans hgrida
        · exact (ihb.grid x hx).trans hgridb

/-- Merging in another order gives the same counts. -/
theorem sameCounts (ha : IsMergeOf xs a) (hb : IsMergeOf ys b) (h : xs.Perm ys) :
    SameCounts a b := by
  have hgrid : a.grid = b.grid := by
    obtain ⟨x, hx⟩ := List.exists_mem_of_ne_nil xs ha.ne_nil
    exact (ha.countsAll.grid x hx).symm.trans (hb.countsAll.grid x (h.mem_iff.mp hx))
  refine ⟨?_, ?_, ?_, ?_, congrArg Prod.fst hgrid, congrArg Prod.snd hgrid⟩
  · rw [ha.countsAll.tubeCount, hb.countsAll.tubeCount, (h.map _).sum_eq]
  · rw [ha.countsAll.boxCount, hb.countsAll.boxCount, (h.map _).sum_eq]
  · rw [ha.countsAll.boxCells, hb.countsAll.boxCells, (h.map _).sum_eq]
  · rw [ha.countsAll.tubeCells, hb.countsAll.tubeCells, (h.map _).sum_eq]

end IsMergeOf

/-! ### Exact merging -/

/-- What is not counted of an exact standing, by the standings that are merged to it. -/
structure WeighsAll (xs : List (Standing ℝ)) (s : Standing ℝ) : Prop where
  spread : s.spread = Stats.combined (xs.map spread)
  total : s.evidence.total = (xs.map fun x => x.evidence.total).sum
  max : IsGreatest {v | ∃ x ∈ xs, x.evidence.max = v} s.evidence.max
  deviation : s.evidence.deviation = Stats.combined (xs.map fun x => x.evidence.deviation)

namespace IsMergeOf

variable {xs ys : List (Standing ℝ)} {s a b : Standing ℝ}

theorem weighsAll (h : IsMergeOf xs s) : WeighsAll xs s := by
  induction h with
  | single s =>
      refine ⟨rfl, List.sum_singleton.symm, ⟨⟨s, List.mem_singleton_self s, rfl⟩, ?_⟩, rfl⟩
      rintro v ⟨x, hx, rfl⟩
      rw [List.mem_singleton.mp hx]
  | @merge xs ys a b s hxs hys h iha ihb =>
      rw [Standing.merge] at h
      split_ifs at h
      obtain rfl := Except.ok.inj h
      refine ⟨?_, ?_, ?_, ?_⟩
      · rw [List.map_append, Stats.combined_append (by simpa using hxs.ne_nil)
          (by simpa using hys.ne_nil), ← iha.spread, ← ihb.spread]
      · rw [List.map_append, List.sum_append, ← iha.total, ← ihb.total]
        rfl
      · have hmax : (a.evidence.merge b.evidence).max = Max.max a.evidence.max b.evidence.max :=
          Scalar.larger_real _ _
        have hunion : {v | ∃ x ∈ xs ++ ys, x.evidence.max = v} =
            {v | ∃ x ∈ xs, x.evidence.max = v} ∪ {v | ∃ x ∈ ys, x.evidence.max = v} := by
          ext v
          simp only [List.mem_append, Set.mem_union, Set.mem_ofPred_eq, or_and_right, exists_or]
        rw [hmax, hunion]
        exact iha.max.union ihb.max
      · rw [List.map_append, Stats.combined_append (by simpa using hxs.ne_nil)
          (by simpa using hys.ne_nil), ← iha.deviation, ← ihb.deviation]
        rfl

/-- **Exact merging does not depend on order and nesting.** -/
theorem eq_of_perm (ha : IsMergeOf xs a) (hb : IsMergeOf ys b) (h : xs.Perm ys) : a = b := by
  have hcounts := ha.sameCounts hb h
  have hspread : a.spread = b.spread := by
    rw [ha.weighsAll.spread, hb.weighsAll.spread, Stats.combined_of_perm (h.map _)]
  have htotal : a.evidence.total = b.evidence.total := by
    rw [ha.weighsAll.total, hb.weighsAll.total, (h.map _).sum_eq]
  have hmax : a.evidence.max = b.evidence.max := by
    refine ha.weighsAll.max.unique ?_
    simp only [h.mem_iff]
    exact hb.weighsAll.max
  have hdeviation : a.evidence.deviation = b.evidence.deviation := by
    rw [ha.weighsAll.deviation, hb.weighsAll.deviation, Stats.combined_of_perm (h.map _)]
  obtain ⟨a1, a2, a3, a4, a5, ⟨a6, a7, a8⟩, a9, a10⟩ := a
  obtain ⟨b1, b2, b3, b4, b5, ⟨b6, b7, b8⟩, b9, b10⟩ := b
  simp only [Standing.mk.injEq, Evidence.mk.injEq]
  exact ⟨hcounts.tubeCount, hcounts.boxCount, hcounts.boxCells, hcounts.tubeCells, hspread,
    ⟨htotal, hmax, hdeviation⟩, hcounts.divisions, hcounts.tubeSize⟩

end IsMergeOf

theorem IsKnownOf.eq_of_perm {xs ys : List (Standing ℝ)} {o o' : Option (Standing ℝ)}
    (h : IsKnownOf xs o) (h' : IsKnownOf ys o') (hperm : xs.Perm ys) : o = o' := by
  have hsome : o.isSome ↔ o'.isSome := by
    rw [h.isSome_iff, h'.isSome_iff, ← List.length_pos_iff, ← List.length_pos_iff,
      hperm.length_eq]
  cases o with
  | none => exact (Option.not_isSome_iff_eq_none.mp fun h' => by simpa using hsome.mpr h').symm
  | some a =>
      obtain ⟨b, rfl⟩ := Option.isSome_iff_exists.mp (hsome.mp rfl)
      rw [IsMergeOf.eq_of_perm h h' hperm]

end Standing

/-! ### What a nesting gives each key -/

namespace Rankings

section

variable {ι α : Type}

/-- The standings that listed rankings have for a key. -/
def valuesOf (maps : ι → Rankings α) (listed : List ι) (k : String) : List (Standing α) :=
  listed.flatMap fun i => ((maps i).get? k).toList

/-- Some key is in two of the listed rankings, on different grids. -/
def Clash (maps : ι → Rankings α) (listed : List ι) : Prop :=
  ∃ k, ∃ i ∈ listed, ∃ j ∈ listed, ∃ a b,
    (maps i).get? k = some a ∧ (maps j).get? k = some b ∧ a.grid ≠ b.grid

variable {maps : ι → Rankings α} {listed : List ι}

theorem mem_valuesOf {k : String} {s : Standing α} :
    s ∈ valuesOf maps listed k ↔ ∃ i ∈ listed, (maps i).get? k = some s := by
  simp [valuesOf]

/-- Without a clash, each key has a grid of its own. -/
theorem not_clash_iff : ¬Clash maps listed ↔
    ∃ grid : String → ℤ × ℤ, ∀ i ∈ listed, (maps i).OnGrids grid := by
  refine ⟨fun h => ?_, ?_⟩
  · have hkey : ∀ k, ∃ grid : ℤ × ℤ, ∀ i ∈ listed, ∀ s,
        (maps i).get? k = some s → s.grid = grid := by
      intro k
      by_cases hk : ∃ i ∈ listed, ∃ s, (maps i).get? k = some s
      · obtain ⟨i, hi, s, hs⟩ := hk
        refine ⟨s.grid, fun j hj t ht => ?_⟩
        by_contra hne
        exact h ⟨k, j, hj, i, hi, t, s, ht, hs, hne⟩
      · exact ⟨(0, 0), fun i hi s hs => absurd ⟨i, hi, s, hs⟩ hk⟩
    choose grid hgrid using hkey
    exact ⟨grid, fun i hi k s hs => hgrid k i hi s hs⟩
  · rintro ⟨grid, hgrid⟩ ⟨k, i, hi, j, hj, a, b, ha, hb, hne⟩
    exact hne ((hgrid i hi k a ha).trans (hgrid j hj k b hb).symm)

theorem clash_congr {listed' : List ι} (h : listed.Perm listed') :
    Clash maps listed ↔ Clash maps listed' := by
  simp only [Clash, h.mem_iff]

end

end Rankings

namespace Nesting

open Standing Rankings

variable {ι α : Type} [Scalar α] {maps : ι → Rankings α}

theorem mem_leaves_merge {parts : List (Nesting ι)} {i : ι} :
    i ∈ (merge parts).leaves ↔ ∃ n ∈ parts, i ∈ n.leaves := by
  rw [leaves, List.mem_flatMap]

theorem nodup_of_merged {n : Nesting ι} {m : Rankings α}
    (hnodup : ∀ i ∈ n.leaves, (maps i).keys.Nodup) (h : n.merged maps = .ok m) :
    m.keys.Nodup := by
  cases n with
  | single i =>
      rw [merged] at h
      obtain rfl := Except.ok.inj h
      rw [leaves] at hnodup
      exact hnodup i (List.mem_singleton_self i)
  | merge parts =>
      rw [merged] at h
      obtain ⟨ms, -, h⟩ := Run.bind_eq_ok.mp h
      exact nodup_of_mergeAll h

/-- What is known of the parts one by one is known of all of them. -/
theorem isKnownOf_of_parts {parts : List (Nesting ι)} {ms : List (Rankings α)}
    {xs : List (Standing α)} {known o : Option (Standing α)} {k : String}
    (h : List.Forall₂ (fun n m => IsKnownOf (valuesOf maps n.leaves k) (m.get? k)) parts ms)
    (hknown : IsKnownOf xs known)
    (hfold : (ms.flatMap fun m => (m.get? k).toList).foldlM mergeOnto known = .ok o) :
    IsKnownOf (xs ++ valuesOf maps (merge parts).leaves k) o := by
  rw [leaves, valuesOf, List.flatMap_assoc]
  induction h generalizing xs known with
  | nil =>
      obtain rfl := Except.ok.inj hfold
      rwa [List.flatMap_nil, List.append_nil]
  | @cons n m parts ms hn _ ih =>
      rw [List.flatMap_cons, List.foldlM_append] at hfold
      obtain ⟨o₁, ho₁, hfold⟩ := Run.bind_eq_ok.mp hfold
      rw [List.flatMap_cons, ← List.append_assoc]
      exact ih (hknown.append hn ho₁) hfold

/-- **What a nesting gives each key** is what its standings are merged to. -/
theorem isKnownOf_of_merged {n : Nesting ι} {m : Rankings α}
    (hnodup : ∀ i ∈ n.leaves, (maps i).keys.Nodup) (h : n.merged maps = .ok m) (k : String) :
    IsKnownOf (valuesOf maps n.leaves k) (m.get? k) := by
  induction n using Nesting.induction generalizing m with
  | single i =>
      rw [merged] at h
      obtain rfl := Except.ok.inj h
      rw [leaves, valuesOf, List.flatMap_singleton]
      exact isKnownOf_toList _
  | merge parts ih =>
      rw [merged] at h
      obtain ⟨ms, hms, h⟩ := Run.bind_eq_ok.mp h
      have hparts : ∀ n ∈ parts, ∀ i ∈ n.leaves, (maps i).keys.Nodup := fun n hn i hi =>
        hnodup i (mem_leaves_merge.mpr ⟨n, hn, hi⟩)
      have hknown : ∀ n ∈ parts, ∀ m, n.merged maps = .ok m →
          IsKnownOf (valuesOf maps n.leaves k) (m.get? k) := fun n hn m hm =>
        ih n hn (hparts n hn) hm
      have hall := (List.forall₂_and_left _ _).mpr ⟨hknown, Run.mapM_eq_ok.mp hms⟩
      have hnodups : ∀ m ∈ ms, m.keys.Nodup := by
        intro m hm
        obtain ⟨n, hn, hnm⟩ := Run.exists_of_mem_mapM hms hm
        exact nodup_of_merged (hparts n hn) hnm
      have hvalues := isKnownOf_of_parts (hall.imp fun n m hnm => hnm.1 m hnm.2)
        (show IsKnownOf [] none from rfl) (get?_of_mergeAll hnodups h k)
      rwa [List.nil_append] at hvalues

/-- A nesting has a merge if the standings of each key are on one grid. -/
theorem exists_merged {n : Nesting ι} {grid : String → ℤ × ℤ}
    (hnodup : ∀ i ∈ n.leaves, (maps i).keys.Nodup)
    (hgrids : ∀ i ∈ n.leaves, (maps i).OnGrids grid) :
    ∃ m, n.merged maps = .ok m ∧ m.OnGrids grid := by
  induction n using Nesting.induction with
  | single i =>
      rw [leaves] at hgrids
      exact ⟨maps i, by rw [merged], hgrids i (List.mem_singleton_self i)⟩
  | merge parts ih =>
      have hparts : ∀ n ∈ parts, ∀ i ∈ n.leaves, i ∈ (merge parts).leaves := fun n hn i hi =>
        mem_leaves_merge.mpr ⟨n, hn, hi⟩
      have hpart : ∀ n ∈ parts, ∃ m, n.merged maps = .ok m ∧ m.OnGrids grid := fun n hn =>
        ih n hn (fun i hi => hnodup i (hparts n hn i hi)) fun i hi => hgrids i (hparts n hn i hi)
      obtain ⟨ms, hms⟩ := Run.exists_mapM fun n hn => (hpart n hn).imp fun _ h => h.1
      have hall : ∀ m ∈ ms, m.keys.Nodup ∧ m.OnGrids grid := by
        intro m hm
        obtain ⟨n, hn, hnm⟩ := Run.exists_of_mem_mapM hms hm
        obtain ⟨m', hm', hgrid⟩ := hpart n hn
        obtain rfl := Except.ok.inj (hm'.symm.trans hnm)
        exact ⟨nodup_of_merged (fun i hi => hnodup i (hparts n hn i hi)) hnm, hgrid⟩
      obtain ⟨m, hm, hgrid⟩ := exists_mergeAll_of_grids (fun m hm => (hall m hm).1)
        fun m hm => (hall m hm).2
      rw [merged]
      exact ⟨m, Run.bind_eq_ok.mpr ⟨ms, hms, hm⟩, hgrid⟩

/-- The only fault of a nesting is that grids differ. -/
theorem kind_of_merged {n : Nesting ι} {f : Fault} (h : n.merged maps = .error f) :
    f.kind = .incompatibleMerge := by
  induction n using Nesting.induction with
  | single i =>
      rw [merged] at h
      cases h
  | merge parts ih =>
      rw [merged] at h
      rcases Run.bind_eq_error.mp h with hparts | ⟨ms, -, h⟩
      · obtain ⟨n, hn, hnf⟩ := Run.exists_of_mapM_eq_error hparts
        exact ih n hn hnf
      · exact kind_of_mergeAll h

/-- **When a nesting is refused**: if and only if a key is in two of its rankings on different
grids. -/
theorem refused_iff {n : Nesting ι} (hnodup : ∀ i ∈ n.leaves, (maps i).keys.Nodup) :
    n.IsRefused maps ↔ Clash maps n.leaves := by
  constructor
  · rintro ⟨f, hf, -⟩
    by_contra hclash
    obtain ⟨grid, hgrids⟩ := not_clash_iff.mp hclash
    obtain ⟨m, hm, -⟩ := exists_merged hnodup hgrids
    rw [hm] at hf
    cases hf
  · rintro ⟨k, i, hi, j, hj, a, b, ha, hb, hne⟩
    cases h : n.merged maps with
    | error f => exact ⟨f, h, kind_of_merged h⟩
    | ok m =>
        have hknown := isKnownOf_of_merged hnodup h k
        have hmema := mem_valuesOf.mpr ⟨i, hi, ha⟩
        have hmemb := mem_valuesOf.mpr ⟨j, hj, hb⟩
        obtain ⟨s, hs⟩ := Option.isSome_iff_exists.mp
          (hknown.isSome_iff.mpr (List.ne_nil_of_mem hmema))
        rw [hs] at hknown
        have hgrid := (IsMergeOf.countsAll hknown).grid
        exact absurd ((hgrid a hmema).trans (hgrid b hmemb).symm) hne

/-- The keys of a merge are those of its rankings. -/
theorem mem_keys_of_merged {n : Nesting ι} {m : Rankings α}
    (hnodup : ∀ i ∈ n.leaves, (maps i).keys.Nodup) (h : n.merged maps = .ok m) (k : String) :
    k ∈ m.keys ↔ ∃ i ∈ n.leaves, k ∈ (maps i).keys := by
  rw [← Catalog.isSome_get?_iff, (isKnownOf_of_merged hnodup h k).isSome_iff]
  constructor
  · intro hne
    obtain ⟨s, hs⟩ := List.exists_mem_of_ne_nil _ hne
    obtain ⟨i, hi, hs⟩ := mem_valuesOf.mp hs
    exact ⟨i, hi, Catalog.isSome_get?_iff.mp (Option.isSome_of_eq_some hs)⟩
  · rintro ⟨i, hi, hk⟩
    obtain ⟨s, hs⟩ := Option.isSome_iff_exists.mp (Catalog.isSome_get?_iff.mpr hk)
    exact List.ne_nil_of_mem (mem_valuesOf.mpr ⟨i, hi, hs⟩)

end Nesting

/-! ### All ways of merging -/

/-- The standing with its numbers read as others. -/
def Standing.readAs {α β : Type} (read : α → β) (s : Standing α) : Standing β where
  tubeCount := s.tubeCount
  boxCount := s.boxCount
  boxCells := s.boxCells
  tubeCells := s.tubeCells
  spread := read s.spread
  evidence := ⟨read s.evidence.total, read s.evidence.max, read s.evidence.deviation⟩
  divisions := s.divisions
  tubeSize := s.tubeSize

namespace Rankings

variable {ι α β : Type}

/-- The ranking with its numbers read as others. -/
def readAs (read : α → β) (m : Rankings α) : Rankings β := m.map fun _ s => s.readAs read

/-- A ranking has the keys of listed rankings, each of them once. -/
structure IsUnion (maps : ι → Rankings α) (listed : List ι) (m : Rankings α) : Prop where
  nodup : m.keys.Nodup
  mem_keys : ∀ k, k ∈ m.keys ↔ ∃ i ∈ listed, k ∈ (maps i).keys

theorem OnGrids.readAs {grid : String → ℤ × ℤ} {m : Rankings α} (h : m.OnGrids grid)
    (read : α → β) : (m.readAs read).OnGrids grid := by
  intro k s hs
  rw [Rankings.readAs, Catalog.get?_map] at hs
  obtain ⟨t, ht, rfl⟩ := Option.map_eq_some_iff.mp hs
  exact h k t ht

variable [Scalar α] {maps : ι → Rankings α} {listed : List ι} {s t : Nesting ι}

theorem isUnion_of_merged {m : Rankings α} (hnodup : ∀ i ∈ listed, (maps i).keys.Nodup)
    (hs : s.leaves.Perm listed) (h : s.merged maps = .ok m) : IsUnion maps listed m := by
  have hleaves : ∀ i ∈ s.leaves, (maps i).keys.Nodup := fun i hi => hnodup i (hs.mem_iff.mp hi)
  refine ⟨Nesting.nodup_of_merged hleaves h, fun k => ?_⟩
  rw [Nesting.mem_keys_of_merged hleaves h]
  simp only [hs.mem_iff]

/-- The standings that two ways of merging give a key have the same counts. -/
theorem sameCounts_of_merged {m m' : Rankings α} (hnodup : ∀ i ∈ listed, (maps i).keys.Nodup)
    (hs : s.leaves.Perm listed) (ht : t.leaves.Perm listed) (h : s.merged maps = .ok m)
    (h' : t.merged maps = .ok m') {k : String} {a b : Standing α} (ha : m.get? k = some a)
    (hb : m'.get? k = some b) : a.SameCounts b := by
  have hknown := Nesting.isKnownOf_of_merged (fun i hi => hnodup i (hs.mem_iff.mp hi)) h k
  have hknown' := Nesting.isKnownOf_of_merged (fun i hi => hnodup i (ht.mem_iff.mp hi)) h' k
  rw [ha] at hknown
  rw [hb] at hknown'
  exact Standing.IsMergeOf.sameCounts hknown hknown' ((hs.trans ht.symm).flatMap_right _)

/-- Exact merges in two ways have the same entries. -/
theorem entries_perm_of_merged {maps : ι → Rankings ℝ} {m m' : Rankings ℝ}
    (hnodup : ∀ i ∈ listed, (maps i).keys.Nodup) (hs : s.leaves.Perm listed)
    (ht : t.leaves.Perm listed) (h : s.merged maps = .ok m) (h' : t.merged maps = .ok m') :
    m.entries.Perm m'.entries := by
  refine Catalog.entries_perm (isUnion_of_merged hnodup hs h).nodup
    (isUnion_of_merged hnodup ht h').nodup fun k => ?_
  exact Standing.IsKnownOf.eq_of_perm
    (Nesting.isKnownOf_of_merged (fun i hi => hnodup i (hs.mem_iff.mp hi)) h k)
    (Nesting.isKnownOf_of_merged (fun i hi => hnodup i (ht.mem_iff.mp hi)) h' k)
    ((hs.trans ht.symm).flatMap_right _)

/-- **All ways of merging listed rankings give the same.** Each map is taken once, in any order and
in any nesting. Every way is refused if some key is in two of the maps on different grids, and none
is if not; then all give the keys of the maps and the same counts, and the same entries altogether
if the numbers are read as real ones and the arithmetic is exact. -/
theorem merged_any_way (read : Float → ℝ) {maps : ι → Rankings Float}
    (hnodup : ∀ i ∈ listed, (maps i).keys.Nodup) (hs : s.leaves.Perm listed)
    (ht : t.leaves.Perm listed) :
    (s.IsRefused maps ↔ Clash maps listed) ∧ (t.IsRefused maps ↔ Clash maps listed) ∧
    (¬Clash maps listed → ∃ m m' exact exact',
      s.merged maps = .ok m ∧ t.merged maps = .ok m' ∧
      IsUnion maps listed m ∧ IsUnion maps listed m' ∧
      (∀ k a b, m.get? k = some a → m'.get? k = some b → a.SameCounts b) ∧
      s.merged (fun i => (maps i).readAs read) = .ok exact ∧
      t.merged (fun i => (maps i).readAs read) = .ok exact' ∧
      exact.entries.Perm exact'.entries) := by
  have hleaves : ∀ {n : Nesting ι}, n.leaves.Perm listed → ∀ i ∈ n.leaves,
      (maps i).keys.Nodup := fun hn i hi => hnodup i (hn.mem_iff.mp hi)
  refine ⟨?_, ?_, fun hclash => ?_⟩
  · rw [Nesting.refused_iff (hleaves hs), clash_congr hs]
  · rw [Nesting.refused_iff (hleaves ht), clash_congr ht]
  obtain ⟨grid, hgrids⟩ := not_clash_iff.mp hclash
  have hnodup' : ∀ i ∈ listed, ((maps i).readAs read).keys.Nodup := fun i hi => by
    rw [readAs, Catalog.keys_map]
    exact hnodup i hi
  have hexists : ∀ {n : Nesting ι}, n.leaves.Perm listed → (∃ m, n.merged maps = .ok m) ∧
      ∃ m, n.merged (fun i => (maps i).readAs read) = .ok m := by
    intro n hn
    obtain ⟨m, hm, -⟩ := Nesting.exists_merged (hleaves hn) fun i hi => hgrids i (hn.mem_iff.mp hi)
    obtain ⟨exact, hexact, -⟩ := Nesting.exists_merged
      (fun i hi => hnodup' i (hn.mem_iff.mp hi))
      fun i hi => (hgrids i (hn.mem_iff.mp hi)).readAs read
    exact ⟨⟨m, hm⟩, ⟨exact, hexact⟩⟩
  obtain ⟨⟨m, hm⟩, ⟨exact, hexact⟩⟩ := hexists hs
  obtain ⟨⟨m', hm'⟩, ⟨exact', hexact'⟩⟩ := hexists ht
  exact ⟨m, m', exact, exact', hm, hm', isUnion_of_merged hnodup hs hm,
    isUnion_of_merged hnodup ht hm', fun k a b => sameCounts_of_merged hnodup hs ht hm hm', hexact,
    hexact', entries_perm_of_merged hnodup' hs ht hexact hexact'⟩

/-- A standing with observations in one cell of a grid of ten divisions. -/
def sampleStanding (n : ℤ) : Standing Float := ⟨n, n, 1, 1, 0.5, ⟨1, 1, 0⟩, 10, 5⟩

/-- Rankings that all have one key, of which the one numbered 1 has another. -/
def sampleMaps (i : ℕ) : Rankings Float :=
  ⟨("a", sampleStanding i) :: if i = 1 then [("b", sampleStanding 3)] else []⟩

theorem sampleMaps_nodup (i : ℕ) : (sampleMaps i).keys.Nodup := by
  by_cases h : i = 1 <;> simp [sampleMaps, Catalog.keys, h]

theorem sampleMaps_onGrid (i : ℕ) : (sampleMaps i).OnGrid (10, 5) := by
  intro k s hs
  have hmem := (Catalog.mem_entries (sampleMaps_nodup i)).mpr hs
  rw [sampleMaps, List.mem_cons] at hmem
  rcases hmem with hmem | hmem
  · obtain ⟨-, rfl⟩ := Prod.mk.inj hmem
    rfl
  · split_ifs at hmem
    · obtain ⟨-, rfl⟩ := Prod.mk.inj (List.mem_singleton.mp hmem)
      rfl
    · cases hmem

theorem merged_any_way_sample : ¬Clash sampleMaps [0, 1, 2] ∧ ∃ m m' exact exact',
    (Nesting.merge [.single 0, .single 1, .single 2]).merged sampleMaps = .ok m ∧
    (Nesting.merge [.merge [.single 2, .single 0], .single 1]).merged sampleMaps = .ok m' ∧
    IsUnion sampleMaps [0, 1, 2] m ∧ IsUnion sampleMaps [0, 1, 2] m' ∧
    (∀ k a b, m.get? k = some a → m'.get? k = some b → a.SameCounts b) ∧
    (Nesting.merge [.single 0, .single 1, .single 2]).merged (fun i =>
      (sampleMaps i).readAs Double.toReal) = .ok exact ∧
    (Nesting.merge [.merge [.single 2, .single 0], .single 1]).merged (fun i =>
      (sampleMaps i).readAs Double.toReal) = .ok exact' ∧
    exact.entries.Perm exact'.entries := by
  have hclash : ¬Clash sampleMaps [0, 1, 2] :=
    not_clash_iff.mpr ⟨fun _ => (10, 5), fun i _ => sampleMaps_onGrid i⟩
  have hs : (Nesting.merge [.single 0, .single 1, .single 2]).leaves.Perm [0, 1, 2] := by
    simp [Nesting.leaves]
  have ht : (Nesting.merge [.merge [.single 2, .single 0], .single 1]).leaves.Perm [0, 1, 2] := by
    simp only [Nesting.leaves, List.flatMap_cons, List.flatMap_nil]
    decide
  exact ⟨hclash, (merged_any_way _ (fun i _ => sampleMaps_nodup i) hs ht).2.2 hclash⟩

end Rankings

end Corridor
