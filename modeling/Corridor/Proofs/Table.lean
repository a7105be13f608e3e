import Corridor.Proofs.Paging

/-!
# Tables of Rankings

A row of a table is a record of the fields of a standing over which its scores are laid, and two of
the fields share their names with scores. So a cell under the name of a score is the score, and only
a cell under another name is a field as it is. A shared field is a count, and the score of its name
is the nearest double, which is the same number exactly if no significant bit of the count is below
the highest 53.

## Main results

* `Catalog.get?_ofList_append`: entries laid over others.
* `Quantity.sameNumber_ofInt_iff`: the integers that are kept by their doubles.
* `Table.exists_record`: the cells of a row.
* `Table.ofRankings_shows`: the rows of a table, and which fields they keep.
-/

namespace Corridor

/-! ### Entries laid over others -/

namespace Catalog

variable {κ α : Type} [BEq κ] [LawfulBEq κ]

/-- Entries of other keys do not change what is looked up. -/
theorem get?_foldl_insert_of_notMem (es : List (κ × α)) (c : Catalog κ α) {k : κ}
    (hk : k ∉ es.map (·.1)) : (es.foldl (fun c e => c.insert e.1 e.2) c).get? k = c.get? k := by
  induction es generalizing c with
  | nil => rfl
  | cons e es ih =>
      rw [List.map_cons, List.mem_cons, not_or] at hk
      rw [List.foldl_cons, ih _ hk.2, get?_insert, if_neg (by simpa using hk.1)]

/-- What is looked up is the value that was entered, if its key was entered once. -/
theorem get?_foldl_insert_of_mem {es : List (κ × α)} (c : Catalog κ α) {k : κ} {v : α}
    (hnodup : (es.map (·.1)).Nodup) (h : (k, v) ∈ es) :
    (es.foldl (fun c e => c.insert e.1 e.2) c).get? k = some v := by
  induction es generalizing c with
  | nil => cases h
  | cons e es ih =>
      rw [List.map_cons, List.nodup_cons] at hnodup
      rw [List.foldl_cons]
      rcases List.mem_cons.mp h with rfl | hrest
      · rw [get?_foldl_insert_of_notMem es _ hnodup.1, get?_insert, if_pos (by simp)]
      · exact ih _ hnodup.2 hrest

/-- **Entries laid over others hide those of their keys**, and only those. -/
theorem get?_ofList_append {es fs : List (κ × α)} (hes : (es.map (·.1)).Nodup)
    (hfs : (fs.map (·.1)).Nodup) {k : κ} {v : α} :
    ((k, v) ∈ fs → (ofList (es ++ fs)).get? k = some v) ∧
      ((k, v) ∈ es → k ∉ fs.map (·.1) → (ofList (es ++ fs)).get? k = some v) := by
  rw [ofList, List.foldl_append]
  refine ⟨get?_foldl_insert_of_mem _ hfs, fun h hk => ?_⟩
  rw [get?_foldl_insert_of_notMem fs _ hk]
  exact get?_foldl_insert_of_mem _ hes h

end Catalog

/-! ### Integers and their doubles -/

open Double

/-- **An integer is kept by its double** exactly if its highest 53 bits are all of it. -/
theorem Quantity.sameNumber_ofInt_iff {n : ℤ} {x : Float} (h : Scalar.ofInt n = .ok x) :
    (real x).sameNumber (whole n) = true ↔ Representable n.natAbs := by
  rw [ofInt_eq] at h
  split_ifs at h with hlt
  obtain rfl := Except.ok.inj h
  -- the unit is a power of two, so the bits of `n` are those of `u`
  set u := n.natAbs * unitsPerOne with hu
  have habs := natAbs_mul_unitsPerOne n
  have hratio : ofRatio n 1 = ofSignedUnitRatio (n * unitsPerOne < 0) u 1 := by
    rw [ofRatio, ofUnitRatio, habs]
  have hfinite : (ofRatio n 1).isFinite = true := by
    rw [hratio]
    exact (isFinite_ofSignedUnitRatio _ _ Nat.one_pos).mpr hlt
  have hunits : units (ofRatio n 1) = signed (n * unitsPerOne < 0) (rounded u 1) := by
    rw [hratio, units_ofSignedUnitRatio _ _ Nat.one_pos, Nat.min_eq_left hlt.le]
  have hexact : rounded u 1 = u ↔ Representable u :=
    ⟨fun heq => heq ▸ representable_rounded u Nat.one_pos, rounded_of_representable⟩
  rw [← representable_mul_two_pow_iff n.natAbs unitExponent, ← unitsPerOne_eq, ← hu, ← hexact,
    sameNumber, hfinite, Bool.true_and, beq_iff_eq, compareInt, Std.compare_eq_iff_eq, hunits,
    signed]
  by_cases hn : n * unitsPerOne < 0
  · simp only [hn, decide_true, if_true]
    omega
  · simp only [hn, decide_false, Bool.false_eq_true, if_false]
    omega

/-! ### Rows -/

theorem Score.mem_all (score : Score) : score ∈ Score.all := by
  cases score <;> decide

namespace Table

/-- What a cell under a name shows of a standing: the score of the name, or the field if there is no
such score. -/
inductive IsCell (s : Standing Float) : String → Datum → Prop
  | score (score : Score) (x : Float) (h : score.of s = .ok x) : IsCell s score.name (.real x)
  | field (name : String) (d : Datum) (h : (name, d) ∈ fields s)
      (hscore : ∀ score : Score, score.name ≠ name) : IsCell s name d

/-- No two scores share a name, and no two fields. -/
theorem nodup_names (s : Standing Float) :
    (Score.all.map Score.name).Nodup ∧ ((fields s).map (·.1)).Nodup := by
  constructor
  · decide
  · simp [fields]

theorem name_injective {score score' : Score} (h : score.name = score'.name) : score = score' :=
  List.inj_on_of_nodup_map (nodup_names default).1 score.mem_all score'.mem_all h

/-- A field has one value. -/
theorem eq_of_mem_fields {s : Standing Float} {name : String} {d d' : Datum}
    (h : (name, d) ∈ fields s) (h' : (name, d') ∈ fields s) : d = d' :=
  congrArg Prod.snd (List.inj_on_of_nodup_map (nodup_names s).2 h h' rfl)

/-- There is one thing to show in a cell. -/
theorem IsCell.unique {s : Standing Float} {name : String} {d d' : Datum} (h : IsCell s name d)
    (h' : IsCell s name d') : d = d' := by
  generalize hname : name = name' at h'
  cases h with
  | score score x hx =>
      cases h' with
      | score score' y hy =>
          obtain rfl := name_injective hname
          rw [Except.ok.inj (hx.symm.trans hy)]
      | field _ d' hd' hscore' => exact absurd hname (hscore' score)
  | field _ _ hd hscore =>
      cases h' with
      | score score' y hy => exact absurd hname.symm (hscore score')
      | field _ _ hd' hscore' =>
          subst hname
          exact eq_of_mem_fields hd hd'

/-- **The cells of a row.** -/
theorem exists_record {s : Standing Float} (h : ∀ score : Score, ∃ x, score.of s = .ok x) :
    ∃ cells, record s = .ok cells ∧
      ∀ name ∈ columnNames, IsCell s name (cells.getD name .null) := by
  choose value hvalue using h
  set scores := Score.all.map fun score => (score.name, Datum.real (value score)) with hscores
  have hnames : scores.map (·.1) = Score.all.map Score.name := by
    rw [hscores, List.map_map]
    rfl
  have hmade : record s = .ok (Catalog.ofList (fields s ++ scores)) := by
    refine Run.bind_eq_ok.mpr ⟨scores, Run.mapM_eq_map fun score _ => ?_, rfl⟩
    exact Run.bind_eq_ok.mpr ⟨value score, Run.mapError_eq_ok.mpr (hvalue score), rfl⟩
  obtain ⟨hscoreNames, hfieldNames⟩ := nodup_names s
  rw [← hnames] at hscoreNames
  refine ⟨_, hmade, fun name hname => ?_⟩
  by_cases hscore : ∃ score : Score, score.name = name
  · obtain ⟨score, rfl⟩ := hscore
    have hmem : (score.name, Datum.real (value score)) ∈ scores :=
      List.mem_map_of_mem score.mem_all
    rw [Catalog.getD, (Catalog.get?_ofList_append hfieldNames hscoreNames).1 hmem]
    exact .score score _ (hvalue score)
  · -- a column is a field's or a score's, so this one is a field's
    simp only [not_exists] at hscore
    have hnot : name ∉ scores.map (·.1) := by
      rw [hnames, List.mem_map]
      rintro ⟨score, -, heq⟩
      exact hscore score heq
    have hfield : name ∈ (fields s).map (·.1) := by
      rcases List.mem_append.mp hname with hfield | hmem
      · exact hfield
      · exact absurd (hnames ▸ hmem) hnot
    obtain ⟨⟨_, d⟩, hd, rfl⟩ := List.mem_map.mp hfield
    rw [Catalog.getD, (Catalog.get?_ofList_append hfieldNames hscoreNames).2 hd hnot]
    exact .field _ d hd hscore

/-- The row of an entry. -/
def row (e : String × Standing Float) : Except Fault (String × List Datum) := do
  let cells ← record e.2
  return (e.1, columnNames.map fun name => cells.getD name .null)

theorem exists_row {e : String × Standing Float} (h : ∀ score : Score, ∃ x, score.of e.2 = .ok x) :
    ∃ r, row e = .ok r ∧ r.1 = e.1 ∧ List.Forall₂ (IsCell e.2) columnNames r.2 := by
  obtain ⟨cells, hcells, hall⟩ := exists_record h
  refine ⟨_, Run.bind_eq_ok.mpr ⟨cells, hcells, rfl⟩, rfl, ?_⟩
  rw [List.forall₂_map_right_iff, List.forall₂_same]
  exact hall

/-! ### Fields that are kept -/

/-- What becomes of a field: it is kept as it is, or it is a count that shares its name with a score
and is shown as the nearest double. -/
inductive IsShownAs (name : String) : Datum → Datum → Prop
  | itself (d : Datum) (h : name ≠ "tube_count" ∧ name ≠ "box_count") : IsShownAs name d d
  | nearest (n : ℤ) (x : Float) (h : name = "tube_count" ∨ name = "box_count")
      (hx : Scalar.ofInt n = .ok x)
      (hsame : (Quantity.real x).sameNumber (.whole n) = true ↔ Representable n.natAbs) :
      IsShownAs name (.whole n) (.real x)

theorem isShownAs_of_mem_fields {s : Standing Float} {name : String} {d cell : Datum}
    (hd : (name, d) ∈ fields s) (hcell : IsCell s name cell) : IsShownAs name d cell := by
  cases hcell with
  | score score x hx =>
      cases score with
      | tubeCount =>
          obtain rfl : d = .whole s.tubeCount := by simpa [fields, Score.name] using hd
          exact .nearest _ x (.inl rfl) hx (Quantity.sameNumber_ofInt_iff hx)
      | boxCount =>
          obtain rfl : d = .whole s.boxCount := by simpa [fields, Score.name] using hd
          exact .nearest _ x (.inr rfl) hx (Quantity.sameNumber_ofInt_iff hx)
      | _ => simp [fields, Score.name] at hd
  | field _ _ hcell hscore =>
      obtain rfl := eq_of_mem_fields hd hcell
      exact .itself d ⟨(hscore .tubeCount).symm, (hscore .boxCount).symm⟩

/-- **Tables show scores over fields.** If every score of every standing in a ranking has a value,
the table of the ranking has a row for each entry, in order and under its key. A cell under the
name of a score is that score, and a cell under another name is the field. So every field is kept
but the two counts that share their names with scores: they are shown as doubles, which are the same
numbers exactly if the highest 53 bits of the counts are all of them. -/
theorem ofRankings_shows {m : Rankings Float}
    (h : ∀ s ∈ m.values, ∀ score : Score, ∃ x, score.of s = .ok x) :
    ∃ t, ofRankings m = .ok t ∧ t.columns = columnNames ∧
      List.Forall₂ (fun e row => row.1 = e.1 ∧ List.Forall₂ (IsCell e.2) t.columns row.2)
        m.entries t.rows ∧
      ∀ s ∈ m.values, ∀ name d cell, (name, d) ∈ fields s → IsCell s name cell →
        IsShownAs name d cell := by
  have hrow : ∀ e ∈ m.entries, ∃ r, row e = .ok r ∧ r.1 = e.1 ∧
      List.Forall₂ (IsCell e.2) columnNames r.2 :=
    fun e he => exists_row (h e.2 (List.mem_map_of_mem he))
  obtain ⟨rows, hrows⟩ := Run.exists_mapM fun e he => (hrow e he).imp fun _ hr => hr.1
  refine ⟨⟨columnNames, rows⟩, Run.bind_eq_ok.mpr ⟨rows, hrows, rfl⟩, rfl, ?_,
    fun s _ name d cell => isShownAs_of_mem_fields⟩
  refine ((List.forall₂_and_left _ _).mpr ⟨hrow, Run.mapM_eq_ok.mp hrows⟩).imp ?_
  rintro e r ⟨⟨r', hr', hkey, hcells⟩, hr⟩
  obtain rfl := Except.ok.inj (hr'.symm.trans hr)
  exact ⟨hkey, hcells⟩

/-! ### A count that is not kept -/

/-- The standing of an entity that was observed in the tube more often than doubles count. -/
def manyObserved : Standing Float := { Standing.empty 10 0 with tubeCount := 2 ^ 53 + 1 }

theorem exists_score_manyObserved (score : Score) : ∃ x, score.of manyObserved = .ok x := by
  have hsound : manyObserved.IsSound := by
    constructor <;> decide
  have hbounded : manyObserved.IsBounded := by
    have hlt : (2 ^ 54 : ℤ) < 2 ^ 1023 := pow_lt_pow_right₀ one_lt_two (by decide)
    constructor <;> exact lt_trans (by decide) hlt
  exact hsound.exists_score .native hbounded score

/-- The double shown for the count is another number. -/
theorem ofRankings_manyObserved :
    (∀ score : Score, ∃ x, score.of manyObserved = .ok x) ∧
    ("tube_count", .whole (2 ^ 53 + 1)) ∈ fields manyObserved ∧
    ∃ x cells, ofRankings ⟨[("a", manyObserved)]⟩ = .ok ⟨columnNames, [("a", cells)]⟩ ∧
      columnNames.head? = some "tube_count" ∧ cells.head? = some (.real x) ∧
      (Quantity.real x).sameNumber (.whole (2 ^ 53 + 1)) = false := by
  refine ⟨exists_score_manyObserved, .head _, ?_⟩
  obtain ⟨⟨key, cells⟩, hrow, rfl, hcells⟩ :=
    exists_row (e := ("a", manyObserved)) exists_score_manyObserved
  obtain ⟨x, hx⟩ := exists_score_manyObserved .tubeCount
  have htable : ofRankings ⟨[("a", manyObserved)]⟩ = .ok ⟨columnNames, [("a", cells)]⟩ :=
    Run.bind_eq_ok.mpr ⟨_, Run.mapM_eq_ok.mpr (.cons hrow .nil), rfl⟩
  refine ⟨x, cells, htable, rfl, ?_, ?_⟩
  · cases hcells with
    | cons hcell _ => exact congrArg some (hcell.unique (.score .tubeCount x hx))
  · have hlost : ¬ Representable manyObserved.tubeCount.natAbs := by
      rw [Representable]
      decide
    rw [Score.of] at hx
    exact Bool.eq_false_iff.mpr (mt (Quantity.sameNumber_ofInt_iff hx).mp hlost)

theorem ofRankings_shows_manyObserved :
    (∀ s ∈ (⟨[("a", manyObserved)]⟩ : Rankings Float).values, ∀ score : Score,
      ∃ x, score.of s = .ok x) ∧
    ∃ t cells, ofRankings ⟨[("a", manyObserved)]⟩ = .ok t ∧ t.columns = columnNames ∧
      t.rows = [("a", cells)] ∧ List.Forall₂ (IsCell manyObserved) columnNames cells ∧
      ∀ cell, IsCell manyObserved "tube_count" cell →
        IsShownAs "tube_count" (.whole (2 ^ 53 + 1)) cell := by
  have hscores : ∀ s ∈ (⟨[("a", manyObserved)]⟩ : Rankings Float).values, ∀ score : Score,
      ∃ x, score.of s = .ok x := by
    intro s hs
    obtain rfl := List.mem_singleton.mp hs
    exact exists_score_manyObserved
  obtain ⟨⟨columns, rows⟩, ht, rfl, hrows, hshown⟩ := ofRankings_shows hscores
  refine ⟨hscores, ⟨columnNames, rows⟩, ?_⟩
  cases hrows with
  | @cons _ r _ _ hrow hnil =>
      obtain ⟨key, cells⟩ := r
      obtain ⟨rfl, hcells⟩ := hrow
      cases hnil
      exact ⟨cells, ht, rfl, rfl, hcells, fun cell =>
        hshown manyObserved (List.mem_singleton_self _) _ _ cell (.head _)⟩

end Table

end Corridor
