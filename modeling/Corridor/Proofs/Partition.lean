import Corridor.Partition
import Mathlib.Data.List.Basic
import Mathlib.Data.List.Chain

/-!
# The Greedy Partition

What a greedy partition is can be said without the scan that finds it: its groups are not empty
and follow each other to the list, every later item of a group joins the part of the group before
it, and the first item of every later group does not join the group before. No other list of
groups has these properties, and each group alone is partitioned into itself.

## Main results

* `isGreedy_of_greedy`: the scan finds a greedy partition.
* `greedy_of_isGreedy`: a greedy partition is what the scan finds.
* `IsGreedy.append`: greedy partitions of two lists follow each other.
* `exists_greedy`: the scan has a result if the test has one wherever it is asked.
* `greedy_map`: the scan of items that stand for others.
-/

namespace Corridor.Partition

variable {α ε : Type}

/-- Every item of a group after its first one joins those before it. -/
def Joined (joins : List α → α → Except ε Bool) (group : List α) : Prop :=
  ∀ before x after, group = before ++ x :: after → before ≠ [] → joins before x = .ok true

/-- The first item of the second group does not join the first group. -/
def Broken (joins : List α → α → Except ε Bool) (group next : List α) : Prop :=
  ∀ x ∈ next.head?, joins group x = .ok false

/-- The groups into which a list falls when each item joins the group before it if it may. -/
structure IsGreedy (joins : List α → α → Except ε Bool) (xs : List α) (groups : List (List α)) :
    Prop where
  flatten_eq : groups.flatten = xs
  ne_nil : ∀ g ∈ groups, g ≠ []
  joined : ∀ g ∈ groups, Joined joins g
  broken : groups.IsChain (Broken joins)

variable {joins : List α → α → Except ε Bool}

theorem joined_singleton (x : α) : Joined joins [x] := by
  intro before y after h hne
  cases before with
  | nil => exact absurd rfl hne
  | cons b bs => simp at h

/-- A group takes in one more item that joins it. -/
theorem Joined.append {group : List α} (h : Joined joins group) {x : α}
    (hx : joins group x = .ok true) : Joined joins (group ++ [x]) := by
  intro before y after heq hne
  rcases List.append_eq_append_iff.mp heq with ⟨cs, hbefore, hcs⟩ | ⟨cs, hgroup, hcs⟩
  · cases cs with
    | nil =>
        rw [List.append_nil] at hbefore
        rw [List.nil_append] at hcs
        obtain ⟨rfl, -⟩ := List.cons.inj hcs
        rwa [hbefore]
    | cons c cs =>
        obtain ⟨-, htail⟩ := List.cons.inj hcs
        simp at htail
  · cases cs with
    | nil =>
        rw [List.append_nil] at hgroup
        rw [List.nil_append] at hcs
        obtain ⟨rfl, -⟩ := List.cons.inj hcs
        rwa [← hgroup]
    | cons c cs =>
        obtain ⟨rfl, -⟩ := List.cons.inj hcs
        exact h before y cs hgroup hne

/-! ### One step of the scan -/

theorem extend_of_joins {group xs : List α} {x : α} (h : joins group x = .ok true) :
    extend joins group (x :: xs) = extend joins (group ++ [x]) xs := by
  rw [extend, h]
  rfl

theorem extend_of_breaks {group xs : List α} {x : α} (h : joins group x = .ok false) :
    extend joins group (x :: xs) = (extend joins [x] xs).map (group :: ·) := by
  rw [extend, h]
  rfl

/-- A scan that goes on has decided about its first item. -/
theorem exists_of_extend_cons {group xs : List α} {x : α} {groups : List (List α)}
    (h : extend joins group (x :: xs) = .ok groups) :
    joins group x = .ok true ∧ extend joins (group ++ [x]) xs = .ok groups ∨
      joins group x = .ok false ∧ ∃ gs, extend joins [x] xs = .ok gs ∧ groups = group :: gs := by
  cases hjoin : joins group x with
  | error e =>
      rw [extend, hjoin] at h
      cases h
  | ok b => cases b with
    | true => exact .inl ⟨rfl, by rwa [← extend_of_joins hjoin]⟩
    | false =>
        rw [extend_of_breaks hjoin] at h
        cases hrest : extend joins [x] xs with
        | error e =>
            rw [hrest] at h
            cases h
        | ok gs =>
            rw [hrest] at h
            exact .inr ⟨rfl, gs, rfl, (Except.ok.inj h).symm⟩

/-! ### The scan finds a greedy partition -/

/-- Continuing with an open group leaves a greedy partition that begins with it. -/
theorem isGreedy_of_extend {group xs : List α} {groups : List (List α)} (hne : group ≠ [])
    (hgroup : Joined joins group) (h : extend joins group xs = .ok groups) :
    IsGreedy joins (group ++ xs) groups ∧ ∃ more rest, groups = (group ++ more) :: rest := by
  induction xs generalizing group groups with
  | nil =>
      rw [extend] at h
      obtain rfl := Except.ok.inj h
      refine ⟨⟨by simp, ?_, ?_, List.isChain_singleton _⟩, [], [], by simp⟩
      · intro g hg
        rwa [List.mem_singleton.mp hg]
      · intro g hg
        rwa [List.mem_singleton.mp hg]
  | cons x xs ih =>
      rcases exists_of_extend_cons h with ⟨hjoin, hmore⟩ | ⟨hbreak, gs, hrest, rfl⟩
      · obtain ⟨hgreedy, more, rest, rfl⟩ := ih (by simp) (hgroup.append hjoin) hmore
        refine ⟨?_, x :: more, rest, by simp⟩
        simpa using hgreedy
      · obtain ⟨hgreedy, more, rest, rfl⟩ := ih (by simp) (joined_singleton x) hrest
        refine ⟨⟨?_, ?_, ?_, ?_⟩, [], ([x] ++ more) :: rest, by simp⟩
        · rw [List.flatten_cons, hgreedy.flatten_eq]
          rfl
        · exact List.forall_mem_cons.mpr ⟨hne, hgreedy.ne_nil⟩
        · exact List.forall_mem_cons.mpr ⟨hgroup, hgreedy.joined⟩
        · refine List.isChain_cons_cons.mpr ⟨?_, hgreedy.broken⟩
          intro y hy
          obtain rfl : x = y := by simpa using hy
          exact hbreak

/-- **The scan finds a greedy partition.** -/
theorem isGreedy_of_greedy {xs : List α} {groups : List (List α)}
    (h : greedy joins xs = .ok groups) : IsGreedy joins xs groups := by
  cases xs with
  | nil =>
      obtain rfl := Except.ok.inj h
      exact ⟨rfl, by simp, by simp, List.isChain_nil⟩
  | cons x xs => exact (isGreedy_of_extend (by simp) (joined_singleton x) h).1

/-! ### A greedy partition is what the scan finds -/

/-- Items that join one after the other are taken into the open group. -/
theorem extend_append {group more : List α} (xs : List α) (h : Joined joins (group ++ more))
    (hne : group ≠ []) : extend joins group (more ++ xs) = extend joins (group ++ more) xs := by
  induction more generalizing group with
  | nil => simp
  | cons x more ih =>
      have hjoin : joins group x = .ok true := h group x more rfl hne
      rw [List.cons_append, extend_of_joins hjoin, ih (by simpa using h) (by simp)]
      simp

/-- **A greedy partition is what the scan finds.** -/
theorem greedy_of_isGreedy {xs : List α} {groups : List (List α)}
    (h : IsGreedy joins xs groups) : greedy joins xs = .ok groups := by
  induction groups generalizing xs with
  | nil =>
      obtain rfl := h.flatten_eq
      rfl
  | cons g gs ih =>
      obtain rfl := h.flatten_eq
      have htail : IsGreedy joins gs.flatten gs :=
        ⟨rfl, fun g' hg' => h.ne_nil g' (List.mem_cons_of_mem g hg'),
          fun g' hg' => h.joined g' (List.mem_cons_of_mem g hg'), h.broken.tail⟩
      cases g with
      | nil => exact absurd rfl (h.ne_nil [] List.mem_cons_self)
      | cons x more =>
          have hjoined := h.joined (x :: more) List.mem_cons_self
          have hopen :
              extend joins [x] (more ++ gs.flatten) = extend joins (x :: more) gs.flatten :=
            extend_append gs.flatten hjoined (by simp)
          rw [List.flatten_cons, List.cons_append, greedy, hopen]
          cases gs with
          | nil => rfl
          | cons g' gs =>
              cases g' with
              | nil => exact absurd rfl (h.ne_nil [] (by simp))
              | cons y more' =>
                  have hbroken : joins (x :: more) y = .ok false :=
                    (List.isChain_cons_cons.mp h.broken).1 y rfl
                  have hrest : extend joins [y] (more' ++ gs.flatten) = .ok ((y :: more') :: gs) :=
                    ih htail
                  change extend joins (x :: more) (y :: (more' ++ gs.flatten)) = _
                  rw [extend_of_breaks hbroken, hrest]
                  rfl

/-- No other list of groups is a greedy partition. -/
theorem IsGreedy.unique {xs : List α} {gs hs : List (List α)} (hg : IsGreedy joins xs gs)
    (hh : IsGreedy joins xs hs) : hs = gs := by
  have heq := greedy_of_isGreedy hg
  rw [greedy_of_isGreedy hh] at heq
  exact Except.ok.inj heq

/-- Each group alone is partitioned into itself. -/
theorem IsGreedy.singleton {xs g : List α} {gs : List (List α)} (h : IsGreedy joins xs gs)
    (hg : g ∈ gs) : IsGreedy joins g [g] := by
  refine ⟨by simp, ?_, ?_, List.isChain_singleton _⟩
  · intro g' hg'
    rw [List.mem_singleton.mp hg']
    exact h.ne_nil g hg
  · intro g' hg'
    rw [List.mem_singleton.mp hg']
    exact h.joined g hg

/-- Items of which none joins the one before it are groups of their own. -/
theorem isGreedy_map_singleton {xs : List α} (h : xs.IsChain fun x y => joins [x] y = .ok false) :
    IsGreedy joins xs (xs.map ([·])) := by
  refine ⟨?_, ?_, ?_, ?_⟩
  · rw [← List.flatMap_def, List.flatMap_singleton']
  · simp
  · intro g hg
    obtain ⟨x, -, rfl⟩ := List.mem_map.mp hg
    exact joined_singleton x
  · refine (List.isChain_map _).mpr (h.imp fun x y hxy z hz => ?_)
    obtain rfl : y = z := by simpa using hz
    exact hxy

/-- Partitions follow each other if the last group of the first does not take in the first item of
the second. -/
theorem IsGreedy.append {xs ys : List α} {gs hs : List (List α)} (hg : IsGreedy joins xs gs)
    (hh : IsGreedy joins ys hs)
    (hbreak : ∀ g ∈ gs.getLast?, ∀ next ∈ hs.head?, Broken joins g next) :
    IsGreedy joins (xs ++ ys) (gs ++ hs) := by
  refine ⟨?_, ?_, ?_, ?_⟩
  · rw [List.flatten_append, hg.flatten_eq, hh.flatten_eq]
  · exact List.forall_mem_append.mpr ⟨hg.ne_nil, hh.ne_nil⟩
  · exact List.forall_mem_append.mpr ⟨hg.joined, hh.joined⟩
  · exact List.isChain_append.mpr ⟨hg.broken, hh.broken, hbreak⟩

/-- The last item of the last group is the last of the list. -/
theorem IsGreedy.getLast?_eq {xs g : List α} {gs : List (List α)} (h : IsGreedy joins xs gs)
    (hg : g ∈ gs.getLast?) : g.getLast? = xs.getLast? := by
  obtain ⟨init, rfl⟩ := List.getLast?_eq_some_iff.mp hg
  rw [← h.flatten_eq, List.flatten_append, List.flatten_singleton,
    List.getLast?_append_of_ne_nil _ (h.ne_nil g (List.mem_of_getLast? hg))]

/-- The first item of the first group is the first of the list. -/
theorem IsGreedy.head?_eq {xs g : List α} {gs : List (List α)} (h : IsGreedy joins xs gs)
    (hg : g ∈ gs.head?) : g.head? = xs.head? := by
  obtain ⟨rest, rfl⟩ := List.head?_eq_some_iff.mp hg
  rw [← h.flatten_eq, List.flatten_cons,
    List.head?_append_of_ne_nil _ (h.ne_nil g (List.mem_of_head? hg))]

/-! ### Items that stand for others -/

/-- The test of items by what they stand for. -/
def standing {ι : Type} (joins : List α → α → Except ε Bool) (f : ι → α) (group : List ι) (x : ι) :
    Except ε Bool :=
  joins (group.map f) (f x)

section

variable {ι : Type} (f : ι → α)

/-- Continuing with an open group of items that stand for others. -/
theorem extend_map (group xs : List ι) :
    extend joins (group.map f) (xs.map f) =
      (extend (standing joins f) group xs).map (List.map (List.map f)) := by
  induction xs generalizing group with
  | nil => rfl
  | cons x xs ih =>
      rw [List.map_cons]
      cases hjoin : joins (group.map f) (f x) with
      | error e =>
          rw [extend, extend, standing, hjoin]
          rfl
      | ok b => cases b with
        | true =>
            have happend : group.map f ++ [f x] = (group ++ [x]).map f := by simp
            have hstanding : standing joins f group x = .ok true := hjoin
            rw [extend_of_joins hjoin, extend_of_joins hstanding, happend, ih]
        | false =>
            have hstanding : standing joins f group x = .ok false := hjoin
            have hrest := ih [x]
            rw [List.map_singleton] at hrest
            rw [extend_of_breaks hjoin, extend_of_breaks hstanding, hrest]
            cases extend (standing joins f) [x] xs <;> rfl

/-- **The scan sees of an item only what it stands for.** -/
theorem greedy_map (xs : List ι) :
    greedy joins (xs.map f) = (greedy (standing joins f) xs).map (List.map (List.map f)) := by
  cases xs with
  | nil => rfl
  | cons x xs => exact extend_map f [x] xs

end

/-! ### The scan has a result -/

section

variable {p : α → Prop} (htotal : ∀ g x, (∀ y ∈ g, p y) → p x → ∃ b, joins g x = .ok b)
include htotal

/-- Continuing with an open group has a result if the test has one. -/
theorem exists_extend {group xs : List α} (hgroup : ∀ y ∈ group, p y) (hxs : ∀ y ∈ xs, p y) :
    ∃ gs, extend joins group xs = .ok gs := by
  induction xs generalizing group with
  | nil => exact ⟨_, rfl⟩
  | cons x xs ih =>
      obtain ⟨hx, hxs⟩ := List.forall_mem_cons.mp hxs
      obtain ⟨b, hb⟩ := htotal group x hgroup hx
      cases b with
      | true =>
          rw [extend_of_joins hb]
          exact ih (List.forall_mem_append.mpr ⟨hgroup, by simpa using hx⟩) hxs
      | false =>
          have hsingle : ∀ y ∈ [x], p y := by simpa using hx
          obtain ⟨gs, hgs⟩ := ih hsingle hxs
          rw [extend_of_breaks hb, hgs]
          exact ⟨group :: gs, rfl⟩

/-- **The scan has a result** if the test has one on all items that occur. -/
theorem exists_greedy {xs : List α} (hxs : ∀ y ∈ xs, p y) : ∃ gs, greedy joins xs = .ok gs := by
  cases xs with
  | nil => exact ⟨[], rfl⟩
  | cons x xs =>
      obtain ⟨hx, hxs⟩ := List.forall_mem_cons.mp hxs
      exact exists_extend htotal (by simpa using hx) hxs

end

end Corridor.Partition
