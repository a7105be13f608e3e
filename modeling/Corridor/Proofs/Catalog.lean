import Corridor.Catalog
import Corridor.Proofs.Run
import Mathlib.Algebra.BigOperators.Group.List.Basic
import Mathlib.Algebra.Ring.Int.Defs
import Mathlib.Data.List.Nodup

/-!
# Looking Up Entries of a Catalog

What the operations on catalogs do to the value of each key. A catalog whose keys differ is
determined by its values, and its entries are its values with their keys.

## Main results

* `get?_tabulate`, `get?_tally`, `get?_map`, `get?_filterKeys`, `get?_insert`: values by key.
* `nodup_keys_tabulate`, `nodup_keys_insert`: keys arrive once.
* `mem_entries`, `entries_perm`: the entries of a catalog whose keys differ.
* `get?_of_mapM`: a catalog of values that are computed one by one.
* `getD_foldl_add`: adding entries into a catalog sums the values of each key.
-/

namespace Corridor.Catalog

variable {κ α β : Type}

/-! ### Parts of a catalog -/

theorem keys_map (f : κ → α → β) (c : Catalog κ α) : (c.map f).keys = c.keys := by
  simp [map, keys, Function.comp_def]

variable [BEq κ]

@[simp] theorem get?_empty (k : κ) : (empty : Catalog κ α).get? k = none := rfl

theorem keys_tabulate (ks : List κ) (f : κ → α) : (tabulate ks f).keys = ks.eraseDups := by
  simp [tabulate, keys, Function.comp_def]

theorem values_tabulate (ks : List κ) (f : κ → α) :
    (tabulate ks f).values = ks.eraseDups.map f := by
  simp [tabulate, values, Function.comp_def]

theorem lookup_cons_eq (e : κ × α) (es : List (κ × α)) (k : κ) :
    (e :: es).lookup k = if k == e.1 then some e.2 else es.lookup k := by
  obtain ⟨a, v⟩ := e
  rw [List.lookup_cons]
  cases k == a <;> rfl

/-- Erasing duplicates keeps the order. -/
theorem eraseDups_sublist (ks : List κ) : ks.eraseDups.Sublist ks := by
  induction h : ks.length using Nat.strongRecOn generalizing ks with
  | ind n ih =>
      cases ks with
      | nil => simp
      | cons k ks =>
          rw [List.eraseDups_cons]
          refine ((ih _ ?_ _ rfl).trans List.filter_sublist).cons_cons k
          have := List.length_filter_le (fun b => !b == k) ks
          simp only [List.length_cons] at h
          omega

variable [LawfulBEq κ]

/-! ### Lists without duplicates -/

/-- What is left after duplicates are erased differs. -/
theorem nodup_eraseDups (ks : List κ) : ks.eraseDups.Nodup := by
  induction h : ks.length using Nat.strongRecOn generalizing ks with
  | ind n ih =>
      cases ks with
      | nil => simp
      | cons k ks =>
          rw [List.eraseDups_cons, List.nodup_cons]
          refine ⟨fun hmem => ?_, ?_⟩
          · rw [List.mem_eraseDups] at hmem
            simp at hmem
          · refine ih _ ?_ _ rfl
            have := List.length_filter_le (fun b => !b == k) ks
            simp only [List.length_cons] at h
            omega

/-! ### Values by key -/

/-- The value of a key in a list of keys with their values. -/
theorem lookup_map (ks : List κ) (f : κ → α) (k : κ) :
    (ks.map fun k => (k, f k)).lookup k = if k ∈ ks then some (f k) else none := by
  induction ks with
  | nil => simp
  | cons a ks ih =>
      rw [List.map_cons, lookup_cons_eq, ih]
      by_cases h : k = a <;> simp [h]

/-- A table has values for its keys. -/
theorem get?_tabulate (ks : List κ) (f : κ → α) (k : κ) :
    (tabulate ks f).get? k = if k ∈ ks then some (f k) else none := by
  rw [tabulate, get?, lookup_map]
  simp only [List.mem_eraseDups]

theorem nodup_keys_tabulate (ks : List κ) (f : κ → α) : (tabulate ks f).keys.Nodup := by
  rw [keys_tabulate]
  exact nodup_eraseDups ks

theorem get?_tally (ks : List κ) (k : κ) :
    (tally ks).get? k = if k ∈ ks then some (ks.count k) else none :=
  get?_tabulate ks _ k

/-- A tally counts, also what does not occur. -/
theorem getD_tally (ks : List κ) (k : κ) : (tally ks).getD k 0 = ks.count k := by
  rw [getD, get?_tally]
  split_ifs with h
  · rfl
  · rw [Option.getD_none, List.count_eq_zero.mpr h]

theorem contains_tally (ks : List κ) (k : κ) : (tally ks).contains k = true ↔ k ∈ ks := by
  rw [contains, get?_tally]
  split_ifs with h <;> simp [h]

theorem get?_map (f : κ → α → β) (c : Catalog κ α) (k : κ) :
    (c.map f).get? k = (c.get? k).map (f k) := by
  obtain ⟨es⟩ := c
  rw [map, get?, get?]
  induction es with
  | nil => simp
  | cons e es ih =>
      rw [List.map_cons, lookup_cons_eq, lookup_cons_eq, ih]
      by_cases h : k = e.1
      · subst h
        simp
      · simp [h]

theorem get?_filterKeys (p : κ → Bool) (c : Catalog κ α) (k : κ) :
    (c.filterKeys p).get? k = if p k then c.get? k else none := by
  obtain ⟨es⟩ := c
  rw [filterKeys, get?, get?]
  induction es with
  | nil => simp
  | cons e es ih =>
      rw [List.filter_cons, lookup_cons_eq]
      by_cases h : k = e.1
      · subst h
        by_cases hp : p e.1 = true
        · simp [hp, lookup_cons_eq]
        · simpa [hp] using ih
      · by_cases hp : p e.1 = true
        · simp only [hp, if_true, lookup_cons_eq, ih]
          simp [h]
        · simp [hp, h, ih]

theorem lookup_setIn (k : κ) (v : α) (es : List (κ × α)) (k' : κ) :
    (setIn k v es).lookup k' = if k' == k then some v else es.lookup k' := by
  induction es with
  | nil => rw [setIn, lookup_cons_eq]
  | cons e es ih =>
      rw [setIn, lookup_cons_eq]
      by_cases he : e.1 = k
      · subst he
        simp only [beq_self_eq_true, if_true, lookup_cons_eq]
        by_cases hk : k' = e.1 <;> simp [hk]
      · rw [if_neg (by simpa using he), lookup_cons_eq, ih]
        by_cases hk : k' = k
        · subst hk
          simp [Ne.symm he]
        · simp [hk]

theorem get?_insert (c : Catalog κ α) (k : κ) (v : α) (k' : κ) :
    (c.insert k v).get? k' = if k' == k then some v else c.get? k' :=
  lookup_setIn k v c.entries k'

/-- A key that is there keeps its place, and a new one comes last. -/
theorem keys_setIn (k : κ) (v : α) (es : List (κ × α)) :
    (setIn k v es).map (·.1) = es.map (·.1) ∨
      k ∉ es.map (·.1) ∧ (setIn k v es).map (·.1) = es.map (·.1) ++ [k] := by
  induction es with
  | nil => exact .inr ⟨List.not_mem_nil, rfl⟩
  | cons e es ih =>
      rw [setIn]
      by_cases he : e.1 = k
      · rw [if_pos (by simpa using he)]
        exact .inl rfl
      · rw [if_neg (by simpa using he), List.map_cons, List.map_cons]
        rcases ih with h | ⟨hk, h⟩
        · exact .inl (congrArg _ h)
        · refine .inr ⟨?_, congrArg _ h⟩
          rw [List.mem_cons, not_or]
          exact ⟨Ne.symm he, hk⟩

theorem nodup_keys_insert {c : Catalog κ α} (h : c.keys.Nodup) (k : κ) (v : α) :
    (c.insert k v).keys.Nodup := by
  rw [keys] at h ⊢
  rcases keys_setIn k v c.entries with hkeys | ⟨hk, hkeys⟩
  · exact hkeys.symm ▸ h
  · rw [insert, hkeys, List.nodup_append]
    refine ⟨h, List.nodup_singleton k, fun a ha b hb hab => ?_⟩
    obtain rfl := List.mem_singleton.mp hb
    exact hk (hab ▸ ha)

/-! ### Entries -/

theorem get?_eq_none_iff {c : Catalog κ α} {k : κ} : c.get? k = none ↔ k ∉ c.keys := by
  rw [get?, List.lookup_eq_none_iff, keys, List.mem_map]
  constructor
  · rintro h ⟨e, he, rfl⟩
    simpa using h e he
  · intro h e he
    have hne : k ≠ e.1 := fun hk => h ⟨e, he, hk.symm⟩
    simp [hne]

theorem isSome_get?_iff {c : Catalog κ α} {k : κ} : (c.get? k).isSome ↔ k ∈ c.keys := by
  rw [← not_iff_not, ← get?_eq_none_iff, Bool.not_eq_true, Option.isSome_eq_false_iff,
    Option.isNone_iff_eq_none]

/-- What is looked up is the value to take instead, or stands in an entry. -/
theorem getD_eq_or_mem (c : Catalog κ α) (k : κ) (default : α) :
    c.getD k default = default ∨ (k, c.getD k default) ∈ c.entries := by
  rw [getD]
  cases h : c.get? k with
  | none => exact .inl rfl
  | some v =>
      obtain ⟨before, after, hsplit, -⟩ := List.lookup_eq_some_iff.mp h
      rw [hsplit]
      exact .inr (List.mem_append_right _ List.mem_cons_self)

/-- The entries of a catalog whose keys differ are its values with their keys. -/
theorem mem_entries {c : Catalog κ α} (h : c.keys.Nodup) {k : κ} {v : α} :
    (k, v) ∈ c.entries ↔ c.get? k = some v := by
  obtain ⟨es⟩ := c
  simp only [keys, get?] at h ⊢
  induction es with
  | nil => simp
  | cons e es ih =>
      rw [List.map_cons, List.nodup_cons] at h
      rw [List.mem_cons, lookup_cons_eq]
      by_cases hk : k = e.1
      · subst hk
        have hnot : (e.1, v) ∉ es := fun hmem => h.1 (List.mem_map.mpr ⟨_, hmem, rfl⟩)
        simp [hnot, Prod.ext_iff, eq_comm]
      · have hne : (k, v) ≠ e := fun he => hk (he ▸ rfl)
        simp [hk, hne, ih h.2]

/-- Catalogs with the same values have the same entries. -/
theorem entries_perm {c d : Catalog κ α} (hc : c.keys.Nodup) (hd : d.keys.Nodup)
    (h : ∀ k, c.get? k = d.get? k) : c.entries.Perm d.entries := by
  rw [List.perm_ext_iff_of_nodup (List.Nodup.of_map _ hc) (List.Nodup.of_map _ hd)]
  rintro ⟨k, v⟩
  rw [mem_entries hc, mem_entries hd, h]

/-- Of the entries of one key there is at most one. -/
theorem filter_entries {c : Catalog κ α} (h : c.keys.Nodup) (k : κ) :
    (c.entries.filter fun e => e.1 == k).map (·.2) = (c.get? k).toList := by
  obtain ⟨es⟩ := c
  simp only [keys, get?] at h ⊢
  induction es with
  | nil => simp
  | cons e es ih =>
      rw [List.map_cons, List.nodup_cons] at h
      rw [List.filter_cons, lookup_cons_eq]
      by_cases hk : k = e.1
      · subst hk
        have hnone : es.filter (fun e' => e'.1 == e.1) = [] := by
          rw [List.filter_eq_nil_iff]
          intro e' he'
          have : e'.1 ≠ e.1 := fun heq => h.1 (List.mem_map.mpr ⟨e', he', heq⟩)
          simp [this]
        simp [hnone]
      · have : e.1 ≠ k := fun heq => hk heq.symm
        simp [hk, this, ih h.2]

/-! ### Values that may fail -/

/-- The values of keys, each computed on its own. -/
theorem get?_of_mapM {ε : Type} {f : κ → Except ε α} {ks : List κ} {es : List (κ × α)}
    (h : (ks.mapM fun k => do return (k, ← f k)) = .ok es) (k : κ) :
    (k ∈ ks → ∃ v, f k = .ok v ∧ get? ⟨es⟩ k = some v) ∧ (k ∉ ks → get? ⟨es⟩ k = none) := by
  have hall := Run.mapM_eq_ok.mp h
  clear h
  induction hall with
  | nil => exact ⟨fun hk => absurd hk List.not_mem_nil, fun _ => rfl⟩
  | @cons a e ks es ha _ ih =>
      obtain ⟨v, hv, he⟩ := Run.bind_eq_ok.mp ha
      obtain rfl := Except.ok.inj he
      rw [get?, lookup_cons_eq]
      by_cases hk : k = a
      · subst hk
        exact ⟨fun _ => ⟨v, hv, by simp⟩, fun hnot => absurd List.mem_cons_self hnot⟩
      · have hrest : (if k == a then some v else es.lookup k) = get? ⟨es⟩ k := by
          simp [hk, get?]
        rw [hrest, List.mem_cons, or_iff_right hk]
        exact ih

/-! ### Sums -/

/-- Adding entries one after the other sums the values of each key. -/
theorem getD_foldl_add (es : List (κ × ℤ)) (t : Catalog κ ℤ) (k : κ) :
    (es.foldl (fun t e => t.insert e.1 (t.getD e.1 0 + e.2)) t).getD k 0 =
      t.getD k 0 + ((es.filter fun e => e.1 == k).map (·.2)).sum := by
  induction es generalizing t with
  | nil => simp
  | cons e es ih =>
      rw [List.foldl_cons, ih, getD, get?_insert, List.filter_cons]
      by_cases hk : k = e.1
      · subst hk
        simp [getD, add_assoc]
      · have : e.1 ≠ k := fun heq => hk heq.symm
        simp [hk, this, getD]

end Corridor.Catalog
