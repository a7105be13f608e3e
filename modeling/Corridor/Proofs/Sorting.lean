import Corridor.Sorting
import Mathlib.Data.List.Chain
import Mathlib.Data.List.Infix

/-!
# What Sorting Does

Whatever is asked of two items, as long as none comes before another that comes before it, the
result of sorting has the items of the list, no two neighbours in it are out of order, and a list
in which none are is left as it is. If the test is an order on the items of the list, no two items
of the result are out of order, and those of which neither comes before the other keep the order
that they had. There is one such arrangement.

Sorting sees of an item only what the test says of it, so items may be sorted by what they stand
for.

## Main results

* `isChain_sort`: neighbours are in order.
* `sort_of_isChain`: a list in order is left as it is.
* `isStableSort_sort`, `IsStableSort.unique`: the stable arrangement, and that there is one.
* `sort_map`: sorting items that stand for others.
-/

namespace Corridor.Sorting

variable {α : Type} {before : α → α → Bool}

theorem notAfter_eq_true_iff {x y : α} : notAfter before x y = true ↔ before y x = false := by
  rw [notAfter, Bool.not_eq_true']

/-! ### Runs -/

theorem cut_append (follows : α → α → Bool) (x : α) (ys : List α) :
    (cut follows x ys).1 ++ (cut follows x ys).2 = ys := by
  induction ys generalizing x with
  | nil => rfl
  | cons y ys ih =>
      rw [cut]
      split_ifs
      · exact congrArg (y :: ·) (ih y)
      · rfl

theorem isChain_cut (follows : α → α → Bool) (x : α) (ys : List α) :
    (x :: (cut follows x ys).1).IsChain fun a b => follows a b = true := by
  induction ys generalizing x with
  | nil => exact List.isChain_singleton x
  | cons y ys ih =>
      rw [cut]
      split_ifs with hfollows
      · exact List.isChain_cons_cons.mpr ⟨hfollows, ih y⟩
      · exact List.isChain_singleton x

theorem cut_of_isChain {follows : α → α → Bool} {x : α} {ys : List α}
    (h : (x :: ys).IsChain fun a b => follows a b = true) : cut follows x ys = (ys, []) := by
  induction ys generalizing x with
  | nil => rfl
  | cons y ys ih =>
      obtain ⟨hfollows, hrest⟩ := List.isChain_cons_cons.mp h
      rw [cut, if_pos hfollows, ih hrest]

/-- The first run and the rest have the items of the list. -/
theorem firstRun_append_perm (x : α) (xs : List α) :
    ((firstRun before x xs).1 ++ (firstRun before x xs).2).Perm (x :: xs) := by
  cases xs with
  | nil => exact .refl _
  | cons y ys =>
      rw [firstRun]
      split_ifs
      · refine ((List.reverse_perm _).append_right _).trans (.of_eq ?_)
        simp [cut_append]
      · exact .of_eq (by simp [cut_append])

/-- A list in order is one run. -/
theorem firstRun_of_isChain {x : α} {xs : List α}
    (h : (x :: xs).IsChain fun a b => notAfter before a b = true) :
    firstRun before x xs = (x :: xs, []) := by
  cases xs with
  | nil => rfl
  | cons y ys =>
      obtain ⟨hfirst, hrest⟩ := List.isChain_cons_cons.mp h
      rw [firstRun, if_neg (by simpa [notAfter] using hfirst), cut_of_isChain hrest]

/-- Only a run of no items has no middle one. -/
theorem eq_nil_of_drop_half {run : List α} (h : run.drop (run.length / 2) = []) : run = [] := by
  have hlength := congrArg List.length h
  rw [List.length_drop, List.length_nil] at hlength
  exact List.eq_nil_of_length_eq_zero (by omega)

theorem insert_nil (before : α → α → Bool) (x : α) : insert before x [] = [x] := by
  rw [insert]
  split
  · rfl
  · rename_i hmiddle
    simp at hmiddle

/-- An item goes into one of the two halves of a run. -/
theorem insert_of_drop (before : α → α → Bool) (x : α) {run later : List α} {y : α}
    (hmiddle : run.drop (run.length / 2) = y :: later) : insert before x run =
      if before x y then insert before x (run.take (run.length / 2)) ++ y :: later
      else run.take (run.length / 2) ++ y :: insert before x later := by
  rw [insert]
  split
  · rename_i hnil
    rw [hnil] at hmiddle
    cases hmiddle
  · rename_i z zs hz
    obtain ⟨rfl, rfl⟩ := List.cons.inj (hmiddle.symm.trans hz)
    rfl

/-- An item is put between two parts of a run, of which the first does not end after it, and the
second does not start before it. -/
theorem exists_insert_eq (before : α → α → Bool) (x : α) (run : List α) :
    ∃ l r, run = l ++ r ∧ insert before x run = l ++ x :: r ∧
      (∀ y ∈ l.getLast?, before x y = false) ∧ ∀ y ∈ r.head?, before x y = true := by
  induction run using insert.induct before x with
  | case1 run hmiddle =>
      obtain rfl := eq_nil_of_drop_half hmiddle
      exact ⟨[], [], rfl, insert_nil before x, by simp, by simp⟩
  | case2 run y later hmiddle hbefore ih =>
      obtain ⟨l, r, hrun, hinsert, hl, hr⟩ := ih
      refine ⟨l, r ++ y :: later, ?_, ?_, hl, ?_⟩
      · rw [← List.append_assoc, ← hrun, ← hmiddle, List.take_append_drop]
      · rw [insert_of_drop before x hmiddle, if_pos hbefore, hinsert, List.append_assoc,
          List.cons_append]
      · cases r with
        | nil => simpa using hbefore
        | cons z zs => simpa using hr
  | case3 run y later hmiddle hbefore ih =>
      obtain ⟨l, r, hrun, hinsert, hl, hr⟩ := ih
      refine ⟨run.take (run.length / 2) ++ y :: l, r, ?_, ?_, ?_, hr⟩
      · rw [List.append_assoc, List.cons_append, ← hrun, ← hmiddle, List.take_append_drop]
      · rw [insert_of_drop before x hmiddle, if_neg hbefore, hinsert, List.append_assoc,
          List.cons_append]
      · intro z hz
        rw [List.getLast?_append_of_ne_nil _ (List.cons_ne_nil y l)] at hz
        cases l with
        | nil =>
            obtain rfl : y = z := by simpa using hz
            simpa using hbefore
        | cons w ws => exact hl z (by simpa using hz)

theorem insert_perm (x : α) (run : List α) : (insert before x run).Perm (x :: run) := by
  obtain ⟨l, r, rfl, hinsert, -⟩ := exists_insert_eq before x run
  rw [hinsert]
  exact List.perm_middle

theorem foldl_insert_perm (xs run : List α) :
    (xs.foldl (fun run y => insert before y run) run).Perm (run ++ xs) := by
  induction xs generalizing run with
  | nil => simp
  | cons x xs ih =>
      refine (ih _).trans (((insert_perm x run).append_right xs).trans ?_)
      exact List.perm_middle.symm

/-- The runs of a list have its items. -/
theorem flatten_runs_perm (least : ℕ) (xs : List α) : (runs before least xs).flatten.Perm xs := by
  induction xs using runs.induct before least with
  | case1 => simp [runs]
  | case2 x xs parts missing ih =>
      rw [runs, List.flatten_cons]
      refine ((foldl_insert_perm _ _).append ih).trans ?_
      rw [List.append_assoc, List.take_append_drop]
      exact firstRun_append_perm x xs

theorem foldr_merge_perm (rs : List (List α)) :
    (rs.foldr (fun run sorted => run.merge sorted (notAfter before)) []).Perm rs.flatten := by
  induction rs with
  | nil => exact .refl _
  | cons run rs ih =>
      rw [List.foldr_cons, List.flatten_cons]
      exact (List.merge_perm_append _).trans (ih.append_left run)

/-- **Sorting keeps the items.** -/
theorem sort_perm (xs : List α) : (sort before xs).Perm xs :=
  (foldr_merge_perm _).trans (flatten_runs_perm _ xs)

/-- **A list in order is left as it is.** -/
theorem sort_of_isChain {xs : List α} (h : xs.IsChain fun a b => notAfter before a b = true) :
    sort before xs = xs := by
  cases xs with
  | nil => simp [sort, runs]
  | cons x xs => simp [sort, runs, firstRun_of_isChain h]

/-! ### Neighbours -/

/-- No item comes before another that comes before it. -/
def IsAsymmetric (before : α → α → Bool) : Prop :=
  ∀ x y, before x y = true → before y x = false

theorem IsAsymmetric.irrefl (hasymm : IsAsymmetric before) (x : α) : before x x = false :=
  Bool.eq_false_iff.mpr fun hx => Bool.false_ne_true ((hasymm x x hx).symm.trans hx)

section

variable (hasymm : IsAsymmetric before)
include hasymm

theorem isChain_firstRun (x : α) (xs : List α) :
    (firstRun before x xs).1.IsChain fun a b => notAfter before a b = true := by
  cases xs with
  | nil => exact List.isChain_singleton x
  | cons y ys =>
      rw [firstRun]
      split_ifs with hbefore
      · rw [List.isChain_reverse]
        refine List.IsChain.imp (fun a b hba => ?_) (List.isChain_cons_cons.mpr
          ⟨hbefore, isChain_cut (fun a b => before b a) y ys⟩)
        exact notAfter_eq_true_iff.mpr (hasymm _ _ hba)
      · exact List.isChain_cons_cons.mpr ⟨by simpa [notAfter] using hbefore, isChain_cut _ y ys⟩

theorem isChain_insert (x : α) {run : List α}
    (h : run.IsChain fun a b => notAfter before a b = true) :
    (insert before x run).IsChain fun a b => notAfter before a b = true := by
  obtain ⟨l, r, rfl, hinsert, hl, hr⟩ := exists_insert_eq before x run
  obtain ⟨hleft, hright, -⟩ := List.isChain_append.mp h
  rw [hinsert, List.isChain_append]
  refine ⟨hleft, ?_, fun y hy z hz => ?_⟩
  · rw [List.isChain_cons]
    exact ⟨fun y hy => notAfter_eq_true_iff.mpr (hasymm _ _ (hr y hy)), hright⟩
  · obtain rfl : x = z := by simpa using hz
    exact notAfter_eq_true_iff.mpr (hl y hy)

theorem isChain_foldl_insert (xs : List α) {run : List α}
    (h : run.IsChain fun a b => notAfter before a b = true) :
    (xs.foldl (fun run y => insert before y run) run).IsChain
      fun a b => notAfter before a b = true := by
  induction xs generalizing run with
  | nil => exact h
  | cons x xs ih => exact ih (isChain_insert hasymm x h)

theorem isChain_of_mem_runs (least : ℕ) (xs : List α) : ∀ run ∈ runs before least xs,
    run.IsChain fun a b => notAfter before a b = true := by
  induction xs using runs.induct before least with
  | case1 => simp [runs]
  | case2 x xs parts missing ih =>
      rw [runs]
      exact List.forall_mem_cons.mpr
        ⟨isChain_foldl_insert hasymm _ (isChain_firstRun hasymm x xs), ih⟩

omit hasymm in
/-- A merge starts with the first item of one of the two lists. -/
theorem head?_merge (xs ys : List α) : ∀ z ∈ (xs.merge ys (notAfter before)).head?,
    z ∈ xs.head? ∨ z ∈ ys.head? := by
  cases xs with
  | nil => simp
  | cons x xs =>
      cases ys with
      | nil => simp
      | cons y ys =>
          rw [List.cons_merge_cons]
          split_ifs
          · simp
          · simp

theorem isChain_merge {xs ys : List α} (hxs : xs.IsChain fun a b => notAfter before a b = true)
    (hys : ys.IsChain fun a b => notAfter before a b = true) :
    (xs.merge ys (notAfter before)).IsChain fun a b => notAfter before a b = true := by
  induction xs generalizing ys with
  | nil => simpa using hys
  | cons x xs ih =>
      induction ys with
      | nil => simpa using hxs
      | cons y ys ih' =>
          obtain ⟨hx, hxs'⟩ := List.isChain_cons.mp hxs
          obtain ⟨hy, hys'⟩ := List.isChain_cons.mp hys
          rw [List.cons_merge_cons]
          split_ifs with hle
          · refine List.isChain_cons.mpr ⟨fun z hz => ?_, ih hxs' hys⟩
            rcases head?_merge xs (y :: ys) z hz with hz | hz
            · exact hx z hz
            · obtain rfl : y = z := by simpa using hz
              exact hle
          · refine List.isChain_cons.mpr ⟨fun z hz => ?_, ih' hys'⟩
            rcases head?_merge (x :: xs) ys z hz with hz | hz
            · obtain rfl : x = z := by simpa using hz
              rw [notAfter_eq_true_iff, Bool.not_eq_false] at hle
              exact notAfter_eq_true_iff.mpr (hasymm _ _ hle)
            · exact hy z hz

/-- Merged runs are in order. -/
theorem isChain_foldr_merge {rs : List (List α)}
    (h : ∀ run ∈ rs, run.IsChain fun a b => notAfter before a b = true) :
    (rs.foldr (fun run sorted => run.merge sorted (notAfter before)) []).IsChain
      fun a b => notAfter before a b = true := by
  induction rs with
  | nil => exact List.isChain_nil
  | cons run rs ih =>
      obtain ⟨hrun, hrs⟩ := List.forall_mem_cons.mp h
      exact isChain_merge hasymm hrun (ih hrs)

/-- **No two neighbours are out of order.** -/
theorem isChain_sort (xs : List α) :
    (sort before xs).IsChain fun a b => notAfter before a b = true :=
  isChain_foldr_merge hasymm (isChain_of_mem_runs hasymm _ xs)

end

/-! ### Stability -/

/-- The test is an order on the items: an item that may stand in front of a second one, which may
stand in front of a third one, may stand in front of the third. -/
def IsConsistent (before : α → α → Bool) (xs : List α) : Prop :=
  ∀ x ∈ xs, ∀ y ∈ xs, ∀ z ∈ xs, before y x = false → before z y = false → before z x = false

instance (before : α → α → Bool) (xs : List α) : Decidable (IsConsistent before xs) :=
  inferInstanceAs (Decidable (∀ x ∈ xs, ∀ y ∈ xs, ∀ z ∈ xs, _))

/-- Whether neither of two items comes before the other. -/
def tie (before : α → α → Bool) (x y : α) : Bool := !before x y && !before y x

theorem tie_eq_true_iff {x y : α} :
    tie before x y = true ↔ before x y = false ∧ before y x = false := by
  rw [tie, Bool.and_eq_true, Bool.not_eq_true', Bool.not_eq_true']

theorem IsConsistent.mono {xs ys : List α} (h : IsConsistent before xs) (hsub : ys ⊆ xs) :
    IsConsistent before ys :=
  fun x hx y hy z hz => h x (hsub hx) y (hsub hy) z (hsub hz)

/-- The test is an order if it compares numbers that stand for the items. -/
theorem isConsistent_of_scale {xs : List α} (scale : α → ℤ)
    (h : ∀ x ∈ xs, ∀ y ∈ xs, (before x y = true ↔ scale x < scale y)) :
    IsConsistent before xs := by
  intro x hx y hy z hz hxy hyz
  rw [← Bool.not_eq_true, h _ hy _ hx] at hxy
  rw [← Bool.not_eq_true, h _ hz _ hy] at hyz
  rw [← Bool.not_eq_true, h _ hz _ hx]
  omega

/-- The items in order, those of which neither comes before the other in the order given. -/
structure IsStableSort (before : α → α → Bool) (xs sorted : List α) : Prop where
  perm : sorted.Perm xs
  ordered : sorted.Pairwise fun a b => before b a = false
  stable : ∀ k ∈ xs, sorted.filter (tie before k) = xs.filter (tie before k)

/-- What passes from neighbours to neighbours passes to all. -/
theorem pairwise_of_isChain {r : α → α → Prop} {us xs : List α} (hsub : xs ⊆ us)
    (htrans : ∀ x ∈ us, ∀ y ∈ us, ∀ z ∈ us, r x y → r y z → r x z) (h : xs.IsChain r) :
    xs.Pairwise r := by
  induction xs with
  | nil => exact .nil
  | cons x xs ih =>
      obtain ⟨hx, hxs⟩ := List.cons_subset.mp hsub
      obtain ⟨hfirst, hrest⟩ := List.isChain_cons.mp h
      have hpairs := ih hxs hrest
      refine List.pairwise_cons.mpr ⟨fun z hz => ?_, hpairs⟩
      cases xs with
      | nil => cases hz
      | cons y ys =>
          rcases List.mem_cons.mp hz with rfl | hmem
          · exact hfirst z rfl
          · exact htrans x hx y (hxs List.mem_cons_self) z (hxs hz) (hfirst y rfl)
              ((List.pairwise_cons.mp hpairs).1 z hmem)

section

variable {us : List α} (hconsistent : IsConsistent before us)
include hconsistent

/-- Where the test is an order, it is enough that neighbours are in order. -/
theorem IsConsistent.pairwise {xs : List α} (hsub : xs ⊆ us)
    (h : xs.IsChain fun a b => notAfter before a b = true) :
    xs.Pairwise fun a b => before b a = false :=
  pairwise_of_isChain hsub hconsistent (h.imp fun _ _ => notAfter_eq_true_iff.mp)

variable {k x y : α} (hk : k ∈ us) (hx : x ∈ us) (hy : y ∈ us)
include hk hx hy

/-- What comes before an item that comes before another one comes before that. -/
theorem IsConsistent.before_trans (hasymm : IsAsymmetric before) (hkx : before k x = true)
    (hxy : before x y = true) : before k y = true := by
  by_contra hky
  rw [Bool.not_eq_true] at hky
  have hkx' := hconsistent x hx y hy k hk (hasymm _ _ hxy) hky
  rw [hkx'] at hkx
  cases hkx

/-- An item that ties with another comes before the same items. -/
theorem IsConsistent.before_of_tie (htie : tie before k x = true) (h : before x y = true) :
    before k y = true := by
  by_contra hky
  rw [Bool.not_eq_true] at hky
  have hyx := hconsistent y hy k hk x hx hky (tie_eq_true_iff.mp htie).2
  rw [hyx] at h
  cases h

/-- The same items come before it. -/
theorem IsConsistent.of_tie_before (htie : tie before k x = true) (h : before y x = true) :
    before y k = true := by
  by_contra hyk
  rw [Bool.not_eq_true] at hyk
  have hxy := hconsistent x hx k hk y hy (tie_eq_true_iff.mp htie).1 hyk
  rw [hxy] at h
  cases h

omit hx in
/-- No item ties with another that comes before all of those it is not after. -/
theorem IsConsistent.filter_tie_eq_nil {xs : List α} (hsub : xs ⊆ us)
    (hxs : ∀ z ∈ xs, before z y = false) (h : before k y = true) :
    xs.filter (tie before k) = [] := by
  rw [List.filter_eq_nil_iff]
  intro z hz htie
  have hyk := hconsistent y hy z (hsub hz) k hk (hxs z hz) (tie_eq_true_iff.mp htie).1
  rw [hyk] at h
  cases h

end

section

variable {us : List α} (hconsistent : IsConsistent before us) (hasymm : IsAsymmetric before)
  {k : α} (hk : k ∈ us)
include hconsistent hasymm hk

/-- Of items that descend, at most one ties with another item, so reversing them keeps those that
tie. -/
theorem filter_tie_reverse {xs : List α} (hsub : xs ⊆ us)
    (h : xs.IsChain fun a b => before b a = true) :
    xs.reverse.filter (tie before k) = xs.filter (tie before k) := by
  have hpairs : xs.Pairwise fun a b => before b a = true := by
    refine pairwise_of_isChain hsub (fun x hx y hy z hz hyx hzy => ?_) h
    exact hconsistent.before_trans hz hy hx hasymm hzy hyx
  clear h
  induction xs with
  | nil => rfl
  | cons x xs ih =>
      obtain ⟨hx, hxs⟩ := List.cons_subset.mp hsub
      obtain ⟨hfirst, hrest⟩ := List.pairwise_cons.mp hpairs
      rw [List.reverse_cons, List.filter_append, ih hxs hrest]
      cases htie : tie before k x with
      | false => simp [htie]
      | true =>
          have hnone : xs.filter (tie before k) = [] := by
            rw [List.filter_eq_nil_iff]
            intro z hz hkz
            have hzk := hconsistent.of_tie_before hk hx (hxs hz) htie (hfirst z hz)
            rw [(tie_eq_true_iff.mp hkz).2] at hzk
            cases hzk
          simp [htie, hnone]

theorem filter_firstRun {x : α} {xs : List α} (hsub : x :: xs ⊆ us) :
    ((firstRun before x xs).1 ++ (firstRun before x xs).2).filter (tie before k) =
      (x :: xs).filter (tie before k) := by
  cases xs with
  | nil => rfl
  | cons y ys =>
      rw [firstRun]
      split_ifs with hbefore
      · have hchain : (x :: y :: (cut (fun a b => before b a) y ys).1).IsChain
            fun a b => before b a = true :=
          List.isChain_cons_cons.mpr ⟨hbefore, isChain_cut _ y ys⟩
        have hparts := cut_append (fun a b => before b a) y ys
        have hrun : x :: y :: (cut (fun a b => before b a) y ys).1 ⊆ us := by
          refine List.Subset.trans (fun z hz => ?_) hsub
          rw [← hparts]
          simp only [List.mem_cons, List.mem_append] at hz ⊢
          tauto
        rw [List.filter_append, filter_tie_reverse hconsistent hasymm hk hrun hchain,
          ← List.filter_append, List.cons_append, List.cons_append, hparts]
      · simp only [List.cons_append, cut_append]

/-- An item is put behind the items that tie with it. -/
theorem filter_insert {x : α} {run : List α} (hx : x ∈ us) (hsub : run ⊆ us)
    (h : run.IsChain fun a b => notAfter before a b = true) :
    (insert before x run).filter (tie before k) =
      run.filter (tie before k) ++ [x].filter (tie before k) := by
  obtain ⟨l, r, rfl, hinsert, -, hr⟩ := exists_insert_eq before x run
  obtain ⟨-, hright⟩ := List.append_subset.mp hsub
  have hpairs := hconsistent.pairwise hright (List.isChain_append.mp h).2.1
  rw [hinsert, List.filter_append, List.filter_append, List.append_assoc]
  cases htie : tie before k x with
  | false => simp [htie]
  | true =>
      have hnone : r.filter (tie before k) = [] := by
        cases r with
        | nil => rfl
        | cons y ys =>
            have hy := hright List.mem_cons_self
            have hky := hconsistent.before_of_tie hk hx hy htie (hr y rfl)
            refine hconsistent.filter_tie_eq_nil hk hy hright (List.forall_mem_cons.mpr ?_) hky
            exact ⟨hasymm.irrefl y, (List.pairwise_cons.mp hpairs).1⟩
      simp [htie, hnone]

theorem filter_foldl_insert {xs run : List α} (hxs : xs ⊆ us) (hsub : run ⊆ us)
    (h : run.IsChain fun a b => notAfter before a b = true) :
    (xs.foldl (fun run y => insert before y run) run).filter (tie before k) =
      (run ++ xs).filter (tie before k) := by
  induction xs generalizing run with
  | nil => simp
  | cons x xs ih =>
      obtain ⟨hx, hxs⟩ := List.cons_subset.mp hxs
      have hinsert : insert before x run ⊆ us := fun z hz => by
        rcases List.mem_cons.mp ((insert_perm x run).mem_iff.mp hz) with rfl | hmem
        · exact hx
        · exact hsub hmem
      rw [List.foldl_cons, ih hxs hinsert (isChain_insert hasymm x h), List.filter_append,
        filter_insert hconsistent hasymm hk hx hsub h, ← List.filter_append, ← List.filter_append,
        List.append_assoc, List.singleton_append]

/-- The items that tie are in the runs as they are in the list. -/
theorem filter_flatten_runs (least : ℕ) {xs : List α} (hsub : xs ⊆ us) :
    (runs before least xs).flatten.filter (tie before k) = xs.filter (tie before k) := by
  induction xs using runs.induct before least with
  | case1 => simp [runs]
  | case2 x xs parts missing ih =>
      have hparts : parts.1 ++ parts.2 ⊆ us := fun z hz =>
        hsub ((firstRun_append_perm x xs).mem_iff.mp hz)
      obtain ⟨hrun, hrest⟩ := List.append_subset.mp hparts
      have hmore : parts.2.take missing ⊆ us := fun z hz => hrest (List.mem_of_mem_take hz)
      have hlater : parts.2.drop missing ⊆ us := fun z hz => hrest (List.mem_of_mem_drop hz)
      rw [runs, List.flatten_cons, List.filter_append,
        filter_foldl_insert hconsistent hasymm hk hmore hrun (isChain_firstRun hasymm x xs),
        ih hlater, ← List.filter_append, List.append_assoc, List.take_append_drop,
        filter_firstRun hconsistent hasymm hk hsub]

theorem filter_merge {xs ys : List α} (hxs : xs ⊆ us) (hys : ys ⊆ us)
    (h : xs.Pairwise fun a b => before b a = false) :
    (xs.merge ys (notAfter before)).filter (tie before k) =
      (xs ++ ys).filter (tie before k) := by
  induction xs generalizing ys with
  | nil => simp
  | cons x xs ih =>
      obtain ⟨hx, hxs'⟩ := List.cons_subset.mp hxs
      obtain ⟨hfirst, hrest⟩ := List.pairwise_cons.mp h
      induction ys with
      | nil => simp
      | cons y ys ih' =>
          obtain ⟨hy, hys'⟩ := List.cons_subset.mp hys
          rw [List.cons_merge_cons]
          split_ifs with hle
          · rw [List.filter_cons, ih hxs' hys hrest, List.cons_append, List.filter_cons]
          · rw [notAfter_eq_true_iff, Bool.not_eq_false] at hle
            rw [List.filter_cons, ih' hys', List.filter_append, List.filter_append,
              List.filter_cons (x := y)]
            split_ifs with htie
            · have hkx := hconsistent.before_of_tie hk hy hx htie hle
              have hnone := hconsistent.filter_tie_eq_nil hk hx hxs
                (List.forall_mem_cons.mpr ⟨hasymm.irrefl x, hfirst⟩) hkx
              rw [hnone, List.nil_append, List.nil_append]
            · rfl

/-- The items that tie are in the merged runs as they are in the runs. -/
theorem filter_foldr_merge {rs : List (List α)} (hsub : rs.flatten ⊆ us)
    (h : ∀ run ∈ rs, run.IsChain fun a b => notAfter before a b = true) :
    (rs.foldr (fun run sorted => run.merge sorted (notAfter before)) []).filter (tie before k) =
      rs.flatten.filter (tie before k) := by
  induction rs with
  | nil => rfl
  | cons run rs ih =>
      obtain ⟨hrun, hrs⟩ := List.forall_mem_cons.mp h
      rw [List.flatten_cons] at hsub
      obtain ⟨hrun_sub, hrs_sub⟩ := List.append_subset.mp hsub
      have hmerged : rs.foldr (fun run sorted => run.merge sorted (notAfter before)) [] ⊆ us :=
        fun z hz => hrs_sub ((foldr_merge_perm rs).mem_iff.mp hz)
      rw [List.foldr_cons, filter_merge hconsistent hasymm hk hrun_sub hmerged
        (hconsistent.pairwise hrun_sub hrun), List.filter_append, ih hrs_sub hrs,
        List.flatten_cons, List.filter_append]

end

/-- **Sorting is stable** where the test is an order. -/
theorem isStableSort_sort (hasymm : IsAsymmetric before) {xs : List α}
    (h : IsConsistent before xs) : IsStableSort before xs (sort before xs) := by
  refine ⟨sort_perm xs, ?_, fun k hk => ?_⟩
  · exact h.pairwise (fun z hz => (sort_perm xs).mem_iff.mp hz) (isChain_sort hasymm xs)
  · have hruns : (runs before (leastRun xs.length) xs).flatten ⊆ xs := fun z hz =>
      (flatten_runs_perm _ xs).mem_iff.mp hz
    rw [sort, filter_foldr_merge h hasymm hk hruns (isChain_of_mem_runs hasymm _ xs),
      filter_flatten_runs h hasymm hk _ (List.Subset.refl xs)]

/-! ### One arrangement -/

/-- Items in order are determined by those that tie with each of them. -/
theorem eq_of_pairwise (hirrefl : ∀ x, before x x = false) {us xs ys : List α}
    (hxs_sub : xs ⊆ us) (hys_sub : ys ⊆ us)
    (hxs : xs.Pairwise fun a b => before b a = false)
    (hys : ys.Pairwise fun a b => before b a = false)
    (h : ∀ k ∈ us, xs.filter (tie before k) = ys.filter (tie before k)) : xs = ys := by
  have hself : ∀ x, tie before x x = true := fun x => tie_eq_true_iff.mpr ⟨hirrefl x, hirrefl x⟩
  have hmem : ∀ {xs ys : List α}, (∀ k ∈ us, xs.filter (tie before k) =
      ys.filter (tie before k)) → ∀ x ∈ us, x ∈ xs → x ∈ ys := by
    intro xs ys h x hx hmem
    have hfilter : x ∈ xs.filter (tie before x) := List.mem_filter.mpr ⟨hmem, hself x⟩
    rw [h x hx] at hfilter
    exact (List.mem_filter.mp hfilter).1
  induction xs generalizing ys with
  | nil =>
      symm
      rw [List.eq_nil_iff_forall_not_mem]
      exact fun y hy => List.not_mem_nil (hmem (fun k hk => (h k hk).symm) y (hys_sub hy) hy)
  | cons x xs ih =>
      obtain ⟨hx, hxs_us⟩ := List.cons_subset.mp hxs_sub
      cases ys with
      | nil => exact absurd (hmem h x hx List.mem_cons_self) List.not_mem_nil
      | cons y ys =>
          obtain ⟨hy, hys_us⟩ := List.cons_subset.mp hys_sub
          obtain ⟨hfirst, hxs⟩ := List.pairwise_cons.mp hxs
          obtain ⟨hfirst', hys'⟩ := List.pairwise_cons.mp hys
          -- each of the two first items is somewhere in the other list, so they tie
          have hyx : before y x = false := by
            rcases List.mem_cons.mp (hmem (fun k hk => (h k hk).symm) y hy List.mem_cons_self) with
              rfl | hmem
            · exact hirrefl y
            · exact hfirst y hmem
          have hxy : before x y = false := by
            rcases List.mem_cons.mp (hmem h x hx List.mem_cons_self) with rfl | hmem
            · exact hirrefl x
            · exact hfirst' x hmem
          have hties := h x hx
          rw [List.filter_cons_of_pos (hself x),
            List.filter_cons_of_pos (tie_eq_true_iff.mpr ⟨hxy, hyx⟩)] at hties
          obtain ⟨rfl, -⟩ := List.cons.inj hties
          refine congrArg (x :: ·) (ih hxs_us hys_us hxs hys' fun k hk => ?_)
          have hk := h k hk
          rw [List.filter_cons, List.filter_cons] at hk
          split_ifs at hk
          · exact (List.cons.inj hk).2
          · exact hk

/-- **There is one stable arrangement.** -/
theorem IsStableSort.unique (hasymm : IsAsymmetric before) {xs sorted sorted' : List α}
    (h : IsStableSort before xs sorted) (h' : IsStableSort before xs sorted') :
    sorted = sorted' :=
  eq_of_pairwise hasymm.irrefl (fun _ hz => h.perm.mem_iff.mp hz)
    (fun _ hz => h'.perm.mem_iff.mp hz) h.ordered h'.ordered
    fun k hk => (h.stable k hk).trans (h'.stable k hk).symm

/-- Items of which no two tie are in one order, in whatever order they are given. -/
theorem IsStableSort.of_perm {xs ys sorted : List α} (hsort : IsStableSort before xs sorted)
    (hconsistent : IsConsistent before xs) (hperm : xs.Perm ys)
    (hseparate : xs.Pairwise fun a b => tie before a b = false) :
    IsStableSort before ys sorted := by
  refine ⟨hsort.perm.trans hperm, hsort.ordered, fun k hk => (hsort.stable k ?_).trans ?_⟩
  · exact hperm.mem_iff.mpr hk
  · have hkxs := hperm.mem_iff.mpr hk
    have hties := hperm.filter (tie before k)
    have hone := hseparate.filter (tie before k)
    have hmem : ∀ x ∈ xs.filter (tie before k), x ∈ xs ∧ tie before k x = true := fun x hx =>
      List.mem_filter.mp hx
    revert hties hone hmem
    -- of two items that tie with a third one, neither comes before the other
    rcases xs.filter (tie before k) with _ | ⟨x, _ | ⟨y, rest⟩⟩
    · exact fun hties _ _ => hties.nil_eq
    · exact fun hties _ _ => List.singleton_perm.mp hties
    · intro _ hone hmem
      obtain ⟨hx, hkx⟩ := hmem x (by simp)
      obtain ⟨hy, hky⟩ := hmem y (by simp)
      rw [tie_eq_true_iff] at hkx hky
      have hxy := hconsistent y hy k hkxs x hx hky.1 hkx.2
      have hyx := hconsistent x hx k hkxs y hy hkx.1 hky.2
      have htie := (List.pairwise_cons.mp hone).1 y List.mem_cons_self
      rw [tie_eq_true_iff.mpr ⟨hxy, hyx⟩] at htie
      cases htie

/-- The arrangements of two lists follow each other if the items of the first come before those of
the second. -/
theorem IsStableSort.append (hasymm : IsAsymmetric before) {xs ys sorted sorted' : List α}
    (h : IsStableSort before xs sorted) (h' : IsStableSort before ys sorted')
    (hlt : ∀ x ∈ xs, ∀ y ∈ ys, before x y = true) :
    IsStableSort before (xs ++ ys) (sorted ++ sorted') := by
  refine ⟨h.perm.append h'.perm, ?_, fun k hk => ?_⟩
  · refine List.pairwise_append.mpr ⟨h.ordered, h'.ordered, fun x hx y hy => ?_⟩
    exact hasymm _ _ (hlt x (h.perm.mem_iff.mp hx) y (h'.perm.mem_iff.mp hy))
  · -- no item of one list ties with one of the other
    have hnone : ∀ {zs : List α}, (∀ z ∈ zs, before k z = true ∨ before z k = true) →
        zs.filter (tie before k) = [] := by
      intro zs hzs
      rw [List.filter_eq_nil_iff]
      intro z hz htie
      obtain ⟨hkz, hzk⟩ := tie_eq_true_iff.mp htie
      rcases hzs z hz with hbefore | hbefore
      · rw [hbefore] at hkz
        cases hkz
      · rw [hbefore] at hzk
        cases hzk
    rw [List.filter_append, List.filter_append]
    rcases List.mem_append.mp hk with hk | hk
    · rw [h.stable k hk, hnone fun z hz => .inl (hlt k hk z (h'.perm.mem_iff.mp hz)),
        hnone fun z hz => .inl (hlt k hk z hz)]
    · rw [h'.stable k hk, hnone fun z hz => .inr (hlt z (h.perm.mem_iff.mp hz) k hk),
        hnone fun z hz => .inr (hlt z hz k hk)]

/-- The last item in order comes before no other. -/
theorem IsStableSort.latest (hasymm : IsAsymmetric before) {xs sorted : List α} {last : α}
    (h : IsStableSort before xs sorted) (hlast : last ∈ sorted.getLast?) :
    last ∈ xs ∧ ∀ x ∈ xs, before last x = false := by
  obtain ⟨init, rfl⟩ := List.getLast?_eq_some_iff.mp hlast
  refine ⟨h.perm.mem_iff.mp (by simp), fun x hx => ?_⟩
  obtain ⟨-, -, hinit⟩ := List.pairwise_append.mp h.ordered
  rcases List.mem_append.mp (h.perm.mem_iff.mpr hx) with hmem | hmem
  · exact hinit x hmem last (by simp)
  · rw [List.mem_singleton.mp hmem]
    exact hasymm.irrefl last

/-- No item comes before the first one in order. -/
theorem IsStableSort.earliest (hasymm : IsAsymmetric before) {xs sorted : List α} {first : α}
    (h : IsStableSort before xs sorted) (hfirst : first ∈ sorted.head?) :
    first ∈ xs ∧ ∀ x ∈ xs, before x first = false := by
  obtain ⟨rest, rfl⟩ := List.head?_eq_some_iff.mp hfirst
  refine ⟨h.perm.mem_iff.mp (by simp), fun x hx => ?_⟩
  obtain ⟨hrest, -⟩ := List.pairwise_cons.mp h.ordered
  rcases List.mem_cons.mp (h.perm.mem_iff.mpr hx) with rfl | hmem
  · exact hasymm.irrefl x
  · exact hrest x hmem

/-! ### Items that stand for others -/

section

variable {ι : Type} (f : ι → α)

theorem notAfter_comp : notAfter (fun a b : ι => before (f a) (f b)) =
    fun a b => notAfter before (f a) (f b) := rfl

theorem cut_map (follows : α → α → Bool) (i : ι) (is : List ι) :
    cut follows (f i) (is.map f) = ((cut (fun a b => follows (f a) (f b)) i is).1.map f,
      (cut (fun a b => follows (f a) (f b)) i is).2.map f) := by
  induction is generalizing i with
  | nil => rfl
  | cons j is ih =>
      rw [List.map_cons, cut, cut, ih]
      split_ifs <;> rfl

theorem firstRun_map (i : ι) (is : List ι) :
    firstRun before (f i) (is.map f) =
      ((firstRun (fun a b => before (f a) (f b)) i is).1.map f,
        (firstRun (fun a b => before (f a) (f b)) i is).2.map f) := by
  cases is with
  | nil => rfl
  | cons j is =>
      rw [List.map_cons, firstRun, firstRun, cut_map, cut_map]
      split_ifs
      · simp
      · simp [notAfter_comp]

theorem insert_map (i : ι) (run : List ι) : insert before (f i) (run.map f) =
    (insert (fun a b => before (f a) (f b)) i run).map f := by
  induction run using insert.induct (fun a b => before (f a) (f b)) i with
  | case1 run hmiddle =>
      obtain rfl := eq_nil_of_drop_half hmiddle
      rw [List.map_nil, insert_nil, insert_nil, List.map_singleton]
  | case2 run j later hmiddle hbefore ih =>
      have hmiddle' : (run.map f).drop ((run.map f).length / 2) = f j :: later.map f := by
        rw [List.length_map, ← List.map_drop, hmiddle, List.map_cons]
      rw [insert_of_drop _ _ hmiddle', insert_of_drop _ _ hmiddle, if_pos hbefore, if_pos hbefore,
        List.length_map, ← List.map_take, ih, List.map_append, List.map_cons]
  | case3 run j later hmiddle hbefore ih =>
      have hmiddle' : (run.map f).drop ((run.map f).length / 2) = f j :: later.map f := by
        rw [List.length_map, ← List.map_drop, hmiddle, List.map_cons]
      rw [insert_of_drop _ _ hmiddle', insert_of_drop _ _ hmiddle, if_neg hbefore, if_neg hbefore,
        List.length_map, ← List.map_take, ih, List.map_append, List.map_cons]

theorem foldl_insert_map (is run : List ι) :
    (is.map f).foldl (fun run y => insert before y run) (run.map f) =
      (is.foldl (fun run y => insert (fun a b => before (f a) (f b)) y run) run).map f := by
  induction is generalizing run with
  | nil => rfl
  | cons i is ih => rw [List.map_cons, List.foldl_cons, List.foldl_cons, insert_map, ih]

theorem runs_map (least : ℕ) (is : List ι) : runs before least (is.map f) =
    (runs (fun a b => before (f a) (f b)) least is).map (List.map f) := by
  induction is using runs.induct (fun a b => before (f a) (f b)) least with
  | case1 => simp [runs]
  | case2 i is parts missing ih =>
      rw [List.map_cons, runs, runs, firstRun_map, List.length_map, ← List.map_take,
        ← List.map_drop, foldl_insert_map, ih, List.map_cons]

/-- **Sorting sees of an item only what it stands for.** -/
theorem sort_map (is : List ι) :
    sort before (is.map f) = (sort (fun a b => before (f a) (f b)) is).map f := by
  rw [sort, sort, List.length_map, runs_map]
  induction runs (fun a b => before (f a) (f b)) (leastRun is.length) is with
  | nil => rfl
  | cons run rs ih =>
      rw [List.map_cons, List.foldr_cons, List.foldr_cons, ih]
      exact (List.map_merge (f := f) fun _ _ _ _ => rfl).symm

end

end Corridor.Sorting
