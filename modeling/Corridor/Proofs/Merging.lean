import Corridor.Proofs.Collection
import Corridor.Proofs.Ranking

/-!
# Merging Rankings

Rankings on one grid merge, key by key: the standings that several rankings have for a key are
merged one after the other, into a standing that counts what they count together.

## Main results

* `Standing.exists_merge`: standings on one grid merge to their sum.
* `Rankings.get?_of_mergeAll`: what a merge of rankings gives each key.
* `Rankings.exists_mergeAll_of_grids`: rankings merge if each key is on one grid in all of them.
* `Rankings.kind_of_mergeAll`: the only fault of a merge is that grids differ.
-/

namespace Corridor

/-! ### Standings -/

namespace Standing

variable {α : Type} [Scalar α]

/-- Merges a standing into what is known of an entity. -/
def mergeOnto (known : Option (Standing α)) (s : Standing α) :
    Except Fault (Option (Standing α)) :=
  match known with
  | none => .ok (some s)
  | some t => do return some (← t.merge s)

/-- The counts and the cells of a standing are those of two others together. -/
structure IsSum (a b s : Standing α) : Prop where
  tubeCount : s.tubeCount = a.tubeCount + b.tubeCount
  boxCount : s.boxCount = a.boxCount + b.boxCount
  boxCells : s.boxCells = a.boxCells + b.boxCells
  tubeCells : s.tubeCells = a.tubeCells + b.tubeCells

variable {a b s : Standing α}

/-- Standings on one grid merge to a standing on it. -/
theorem exists_merge (h : a.grid = b.grid) : ∃ s, a.merge b = .ok s ∧ s.grid = a.grid := by
  rw [merge, if_pos h]
  exact ⟨_, rfl, rfl⟩

/-- Standings merge unless their grids differ. -/
theorem kind_of_merge {f : Fault} (h : a.merge b = .error f) : f.kind = .incompatibleMerge := by
  rw [merge] at h
  split_ifs at h
  obtain rfl := Except.error.inj h
  rfl

/-- What standings merge to is their sum. -/
theorem isSum_of_merge (h : a.merge b = .ok s) : IsSum a b s := by
  rw [merge] at h
  split_ifs at h
  obtain rfl := Except.ok.inj h
  exact ⟨rfl, rfl, rfl, rfl⟩

/-- What one ranking knows of an entity is taken, and what two know is merged. -/
theorem cases_of_foldlM {o₁ o₂ o : Option (Standing α)}
    (h : (o₁.toList ++ o₂.toList).foldlM mergeOnto none = .ok o) :
    o₁ = none ∧ o = o₂ ∨ o₂ = none ∧ o = o₁ ∨
      ∃ a b s, o₁ = some a ∧ o₂ = some b ∧ o = some s ∧ a.merge b = .ok s := by
  cases o₁ with
  | none =>
      cases o₂ with
      | none => exact .inl ⟨rfl, (Except.ok.inj h).symm⟩
      | some b => exact .inl ⟨rfl, (Except.ok.inj h).symm⟩
  | some a =>
      cases o₂ with
      | none => exact .inr (.inl ⟨rfl, (Except.ok.inj h).symm⟩)
      | some b =>
          rw [Option.toList_some, Option.toList_some, List.singleton_append, List.foldlM_cons] at h
          obtain ⟨known, hknown, h⟩ := Run.bind_eq_ok.mp h
          obtain rfl := Except.ok.inj hknown
          obtain ⟨known, hknown, h⟩ := Run.bind_eq_ok.mp h
          obtain ⟨s, hs, hsome⟩ := Run.bind_eq_ok.mp hknown
          obtain rfl := Except.ok.inj hsome
          exact .inr (.inr ⟨a, b, s, rfl, rfl, (Except.ok.inj h).symm, hs⟩)

/-- Two rankings know an entity together if either does. -/
theorem isSome_of_foldlM {o₁ o₂ o : Option (Standing α)}
    (h : (o₁.toList ++ o₂.toList).foldlM mergeOnto none = .ok o) :
    o.isSome ↔ o₁.isSome ∨ o₂.isSome := by
  rcases cases_of_foldlM h with ⟨rfl, rfl⟩ | ⟨rfl, rfl⟩ | ⟨a, b, s, rfl, rfl, rfl, -⟩ <;> simp

/-- What two rankings know of an entity together is the sum of what they know, an entity that is
not known having nothing. -/
theorem isSum_of_foldlM {o₁ o₂ : Option (Standing α)} (divisions tubeSize : ℤ)
    (h : (o₁.toList ++ o₂.toList).foldlM mergeOnto none = .ok (some s)) :
    IsSum (o₁.getD (empty divisions tubeSize)) (o₂.getD (empty divisions tubeSize)) s := by
  rcases cases_of_foldlM h with ⟨rfl, rfl⟩ | ⟨rfl, rfl⟩ | ⟨a, b, t, rfl, rfl, hst, ht⟩
  · constructor <;> simp [empty]
  · constructor <;> simp [empty]
  · obtain rfl := Option.some.inj hst
    exact isSum_of_merge ht

end Standing

/-! ### Merging key by key -/

namespace Rankings

variable {α : Type} [Scalar α]

/-- All standings of a ranking are on the same grid. -/
def OnGrid (grid : ℤ × ℤ) (m : Rankings α) : Prop := ∀ k s, m.get? k = some s → s.grid = grid

/-- The standing of each key is on a grid that the key has. -/
def OnGrids (grid : String → ℤ × ℤ) (m : Rankings α) : Prop :=
  ∀ k s, m.get? k = some s → s.grid = grid k

/-- The standings that a list of entries has for a key. -/
def standingsOf (es : List (String × Standing α)) (k : String) : List (Standing α) :=
  (es.filter fun e => e.1 == k).map (·.2)

/-- To absorb an entry is to merge it into what is known of its key. -/
theorem absorb_eq_ok {m m' : Rankings α} {e : String × Standing α} :
    absorb m e = .ok m' ↔
      ∃ s, Standing.mergeOnto (m.get? e.1) e.2 = .ok (some s) ∧ m' = m.insert e.1 s := by
  simp only [absorb, Standing.mergeOnto]
  cases m.get? e.1 with
  | none =>
      constructor
      · intro h
        exact ⟨e.2, rfl, (Except.ok.inj h).symm⟩
      · rintro ⟨s, hs, rfl⟩
        obtain rfl := Option.some.inj (Except.ok.inj hs)
        rfl
  | some t =>
      simp only [Run.bind_eq_ok]
      constructor
      · rintro ⟨s, hs, h⟩
        exact ⟨s, ⟨s, hs, rfl⟩, (Except.ok.inj h).symm⟩
      · rintro ⟨s, ⟨s', hs', h⟩, rfl⟩
        obtain rfl := Option.some.inj (Except.ok.inj h)
        exact ⟨s', hs', rfl⟩

/-- What absorbing entries gives each key: its standings, merged one after the other. -/
theorem get?_of_foldlM {es : List (String × Standing α)} {m m' : Rankings α}
    (h : es.foldlM absorb m = .ok m') (k : String) :
    (standingsOf es k).foldlM Standing.mergeOnto (m.get? k) = .ok (m'.get? k) := by
  induction es generalizing m with
  | nil =>
      obtain rfl := Except.ok.inj h
      rfl
  | cons e es ih =>
      rw [List.foldlM_cons] at h
      obtain ⟨m₁, habsorb, h⟩ := Run.bind_eq_ok.mp h
      obtain ⟨s, hs, rfl⟩ := absorb_eq_ok.mp habsorb
      have hrest := ih h
      rw [Catalog.get?_insert] at hrest
      by_cases hk : k = e.1
      · subst hk
        rw [standingsOf, List.filter_cons_of_pos (by simp), List.map_cons, List.foldlM_cons]
        rw [if_pos (beq_self_eq_true _)] at hrest
        exact Run.bind_eq_ok.mpr ⟨_, hs, hrest⟩
      · rw [standingsOf, List.filter_cons_of_neg (by simpa using Ne.symm hk)]
        rwa [if_neg (by simpa using hk)] at hrest

/-- The only fault of absorbing entries is that grids differ. -/
theorem kind_of_foldlM {es : List (String × Standing α)} {m : Rankings α} {f : Fault}
    (h : es.foldlM absorb m = .error f) : f.kind = .incompatibleMerge := by
  induction es generalizing m with
  | nil => cases h
  | cons e es ih =>
      rw [List.foldlM_cons] at h
      rcases Run.bind_eq_error.mp h with habsorb | ⟨m₁, -, h⟩
      · rw [absorb] at habsorb
        split at habsorb
        · rcases Run.bind_eq_error.mp habsorb with hmerge | ⟨s, -, hinsert⟩
          · exact Standing.kind_of_merge hmerge
          · cases hinsert
        · cases habsorb
      · exact ih h

/-- To absorb entries leaves the keys different. -/
theorem nodup_of_foldlM {es : List (String × Standing α)} {m m' : Rankings α}
    (hm : m.keys.Nodup) (h : es.foldlM absorb m = .ok m') : m'.keys.Nodup := by
  induction es generalizing m with
  | nil =>
      obtain rfl := Except.ok.inj h
      exact hm
  | cons e es ih =>
      rw [List.foldlM_cons] at h
      obtain ⟨m₁, habsorb, h⟩ := Run.bind_eq_ok.mp h
      obtain ⟨s, -, rfl⟩ := absorb_eq_ok.mp habsorb
      exact ih (Catalog.nodup_keys_insert hm _ _) h

/-- Entries can be absorbed if those of each key are on one grid. -/
theorem exists_foldlM {grid : String → ℤ × ℤ} {es : List (String × Standing α)} {m : Rankings α}
    (hm : m.OnGrids grid) (hes : ∀ e ∈ es, e.2.grid = grid e.1) :
    ∃ m', es.foldlM absorb m = .ok m' ∧ m'.OnGrids grid := by
  induction es generalizing m with
  | nil => exact ⟨m, rfl, hm⟩
  | cons e es ih =>
      obtain ⟨he, hes⟩ := List.forall_mem_cons.mp hes
      have hstep : ∃ s, Standing.mergeOnto (m.get? e.1) e.2 = .ok (some s) ∧ s.grid = grid e.1 := by
        cases hget : m.get? e.1 with
        | none => exact ⟨e.2, rfl, he⟩
        | some t =>
            have ht := hm e.1 t hget
            obtain ⟨s, hs, hgrid⟩ := Standing.exists_merge (ht.trans he.symm)
            exact ⟨s, Run.bind_eq_ok.mpr ⟨s, hs, rfl⟩, hgrid.trans ht⟩
      obtain ⟨s, hs, hgrid⟩ := hstep
      have hinsert : OnGrids grid (m.insert e.1 s) := by
        intro k t ht
        rw [Catalog.get?_insert] at ht
        split_ifs at ht with hk
        · obtain rfl := Option.some.inj ht
          rw [hgrid, eq_of_beq hk]
        · exact hm k t ht
      obtain ⟨m', hm', hgrids⟩ := ih hinsert hes
      rw [List.foldlM_cons]
      exact ⟨m', Run.bind_eq_ok.mpr ⟨_, absorb_eq_ok.mpr ⟨s, hs, rfl⟩, hm'⟩, hgrids⟩

/-! ### Merging whole rankings -/

variable {maps : List (Rankings α)} {merged : Rankings α}

theorem nodup_of_mergeAll (h : mergeAll maps = .ok merged) : merged.keys.Nodup := by
  refine nodup_of_foldlM ?_ h
  exact List.nodup_nil

/-- **What a merge gives each key**: its standings in the rankings, merged one after the other. -/
theorem get?_of_mergeAll (hnodup : ∀ m ∈ maps, m.keys.Nodup) (h : mergeAll maps = .ok merged)
    (k : String) : (maps.flatMap fun m => (m.get? k).toList).foldlM Standing.mergeOnto none =
      .ok (merged.get? k) := by
  have hvalues : standingsOf (maps.flatMap Catalog.entries) k =
      maps.flatMap fun m => (m.get? k).toList := by
    rw [standingsOf, List.filter_flatMap, List.map_flatMap]
    exact List.flatMap_congr fun m hm => Catalog.filter_entries (hnodup m hm) k
  rw [← hvalues]
  exact get?_of_foldlM h k

theorem kind_of_mergeAll {f : Fault} (h : mergeAll maps = .error f) :
    f.kind = .incompatibleMerge :=
  kind_of_foldlM h

/-- Rankings merge if the standings of each key are on one grid. -/
theorem exists_mergeAll_of_grids {grid : String → ℤ × ℤ} (hnodup : ∀ m ∈ maps, m.keys.Nodup)
    (hgrids : ∀ m ∈ maps, m.OnGrids grid) :
    ∃ merged, mergeAll maps = .ok merged ∧ merged.OnGrids grid := by
  refine exists_foldlM (fun k s h => by simp at h) fun e he => ?_
  obtain ⟨m, hm, hmem⟩ := List.mem_flatMap.mp he
  exact hgrids m hm e.1 e.2 ((Catalog.mem_entries (hnodup m hm)).mp hmem)

/-- **Rankings on one grid merge**, and each key gets its standings in them, merged one after the
other. -/
theorem exists_mergeAll {grid : ℤ × ℤ} {maps : List (Rankings α)}
    (hnodup : ∀ m ∈ maps, m.keys.Nodup) (hgrid : ∀ m ∈ maps, m.OnGrid grid) :
    ∃ merged, mergeAll maps = .ok merged ∧ merged.keys.Nodup ∧ ∀ k,
      (maps.flatMap fun m => (m.get? k).toList).foldlM Standing.mergeOnto none =
        .ok (merged.get? k) := by
  have hgrids : ∀ m ∈ maps, m.OnGrids fun _ => grid := hgrid
  obtain ⟨merged, hmerged, -⟩ := exists_mergeAll_of_grids hnodup hgrids
  exact ⟨merged, hmerged, nodup_of_mergeAll hmerged, get?_of_mergeAll hnodup hmerged⟩

end Rankings

end Corridor
