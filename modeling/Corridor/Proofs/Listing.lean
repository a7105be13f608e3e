import Corridor.Listing
import Corridor.Proofs.Catalog
import Corridor.Proofs.Number.Order

/-!
# Listings Are Canonical

Entries stand in a linear order: by their scores, what is not a number last, and then by key. So
there is only one way to list the keys of a ranking, and it does not depend on the order in which
they arrived. The pages of a listing are pieces of that one list, and pages that follow each other
put it together again, whichever copy of the ranking each of them was made from.

## Main results

* `before_iff`: the order of entries is a lexicographic one.
* `IsListing.unique`: keys are listed in one way.
* `flatMap_pages`: pages tile a list.
* `pageOf_canonical`: the listing of a ranking, and its pages.
-/

namespace Corridor

/-- Every score is found by its name. -/
theorem Score.ofDatum_name (score : Score) : Score.ofDatum (.text score.name) = .ok score := by
  cases score <;> rfl

namespace Listing

/-! ### The order of entries -/

/-- Where a score stands: the higher it is, the earlier, and what is not a number last. -/
def place (x : Float) : WithTop ℤ := if x.isNaN then ⊤ else ((-Double.units x : ℤ) : WithTop ℤ)

theorem place_of_isNaN {x : Float} (h : x.isNaN = true) : place x = ⊤ := by
  rw [place, if_pos h]

theorem place_of_number {x : Float} (h : x.isNaN = false) :
    place x = ((-Double.units x : ℤ) : WithTop ℤ) := by
  rw [place, if_neg (by rw [h]; exact Bool.false_ne_true)]

section

variable {x y : Float}

/-- A score stands before another one if it is a number, and a greater one unless the other is
none. -/
theorem place_lt_iff : place x < place y ↔ x.isNaN = false ∧ (y.isNaN = true ∨ y < x) := by
  rw [Double.lt_iff]
  cases hx : x.isNaN with
  | true =>
      rw [place_of_isNaN hx]
      simp
  | false =>
      rw [place_of_number hx]
      cases hy : y.isNaN with
      | true =>
          rw [place_of_isNaN hy]
          exact iff_of_true (WithTop.coe_lt_top _) ⟨rfl, .inl rfl⟩
      | false =>
          rw [place_of_number hy, WithTop.coe_lt_coe, neg_lt_neg_iff]
          simp

/-- Two scores stand in one place if they are equal or both are no numbers. -/
theorem place_eq_iff :
    place x = place y ↔ x.isNaN = true ∧ y.isNaN = true ∨ (x == y) = true := by
  rw [Double.beq_iff]
  cases hx : x.isNaN with
  | true =>
      rw [place_of_isNaN hx]
      cases hy : y.isNaN with
      | true =>
          rw [place_of_isNaN hy]
          simp
      | false =>
          rw [place_of_number hy]
          exact iff_of_false WithTop.top_ne_coe (by simp)
  | false =>
      rw [place_of_number hx]
      cases hy : y.isNaN with
      | true =>
          rw [place_of_isNaN hy]
          simp
      | false =>
          rw [place_of_number hy, WithTop.coe_inj, neg_inj]
          simp

end

/-- **The order of entries** is lexicographic: by place and then by key. -/
theorem before_iff {a b : String × Float} :
    before a b = true ↔ toLex (place a.2, a.1) ≤ toLex (place b.2, b.1) := by
  rw [Prod.Lex.toLex_le_toLex, place_lt_iff, place_eq_iff, before]
  cases ha : a.2.isNaN with
  | true =>
      have hne : ¬(a.2 == b.2) = true := by
        intro heq
        rw [(Double.beq_iff.mp heq).1] at ha
        cases ha
      simp [hne]
  | false =>
      simp [or_assoc]

theorem before_trans {a b c : String × Float} (hab : before a b = true)
    (hbc : before b c = true) : before a c = true := by
  rw [before_iff] at *
  exact hab.trans hbc

theorem before_total (a b : String × Float) : (before a b || before b a) = true := by
  rw [Bool.or_eq_true, before_iff, before_iff]
  exact le_total _ _

/-- Entries that stand before each other have one key. -/
theorem before_antisymm {a b : String × Float} (hab : before a b = true)
    (hba : before b a = true) : a.1 = b.1 := by
  rw [before_iff] at hab hba
  exact congrArg (fun e => (ofLex e).2) (hab.antisymm hba)

/-! ### Listings -/

/-- The keys in order of their scores. -/
structure IsListing (value : String → Float) (keys listed : List String) : Prop where
  perm : listed.Perm keys
  ordered : listed.Pairwise fun k l => before (k, value k) (l, value l) = true

/-- The score of one key leads to a place before that of another key. -/
structure Leads (value : String → Float) (k l : String) : Prop where
  number_first : (value l).isNaN = false → (value k).isNaN = false
  greater_first : (value k).isNaN = false → (value l).isNaN = false → value l ≤ value k
  ties_by_key : (value k == value l) = true ∨ (value k).isNaN = true ∧ (value l).isNaN = true →
    k < l

/-- **Keys are listed in one way.** -/
theorem IsListing.unique {value : String → Float} {keys keys' listed listed' : List String}
    (h : IsListing value keys listed) (h' : IsListing value keys' listed')
    (hperm : keys.Perm keys') : listed = listed' :=
  List.Perm.eq_of_pairwise (fun _ _ _ _ hab hba => before_antisymm hab hba) h.ordered h'.ordered
    ((h.perm.trans hperm).trans h'.perm.symm)

/-- An entry before another one of a different key leads it. -/
theorem leads_of_before {value : String → Float} {k l : String} (hne : k ≠ l)
    (h : before (k, value k) (l, value l) = true) : Leads value k l := by
  rw [before_iff, Prod.Lex.toLex_le_toLex] at h
  refine ⟨fun hl => ?_, fun hk hl => ?_, fun htie => ?_⟩
  · rcases h with hlt | ⟨heq, -⟩
    · exact (place_lt_iff.mp hlt).1
    · rcases place_eq_iff.mp heq with ⟨-, hnan⟩ | hbeq
      · rw [hl] at hnan
        cases hnan
      · exact (Double.beq_iff.mp hbeq).1
  · rw [Double.le_iff]
    refine ⟨hl, hk, ?_⟩
    rw [place_of_number hk, place_of_number hl] at h
    rcases h with hlt | ⟨heq, -⟩
    · have := WithTop.coe_lt_coe.mp hlt
      omega
    · have := WithTop.coe_inj.mp heq
      omega
  · have heq : place (value k) = place (value l) := place_eq_iff.mpr htie.symm
    rcases h with hlt | ⟨-, hle⟩
    · exact absurd heq hlt.ne
    · exact lt_of_le_of_ne hle hne

/-- In a listing, every key leads those after it. -/
theorem IsListing.leads {value : String → Float} {keys listed : List String}
    (h : IsListing value keys listed) (hnodup : keys.Nodup) : listed.Pairwise (Leads value) := by
  have hlisted : listed.Nodup := h.perm.nodup_iff.mpr hnodup
  exact (h.ordered.and hlisted).imp fun hkl => leads_of_before hkl.2 hkl.1

/-- The scores of the keys of a ranking, where each has one. -/
theorem exists_value {m : Rankings Float} (score : Score)
    (h : ∀ k s, m.get? k = some s → ∃ x, score.of s = .ok x) :
    ∃ value : String → Float, ∀ k s, m.get? k = some s → score.of s = .ok (value k) := by
  have hvalue : ∀ k, ∃ x, ∀ s, m.get? k = some s → score.of s = .ok x := by
    intro k
    cases hget : m.get? k with
    | none => exact ⟨0, fun s hs => by cases hs⟩
    | some t =>
        obtain ⟨x, hx⟩ := h k t hget
        refine ⟨x, fun s hs => ?_⟩
        obtain rfl := Option.some.inj hs
        exact hx
  choose value hvalue using hvalue
  exact ⟨value, hvalue⟩

/-- **The keys of a ranking are listed** if each has a score. -/
theorem exists_sort {m : Rankings Float} {score : Score} {value : String → Float}
    (hnodup : m.keys.Nodup) (h : ∀ k s, m.get? k = some s → score.of s = .ok (value k)) :
    ∃ listed, sort m score = .ok listed ∧ IsListing value m.keys listed := by
  have hentries : scored m score = .ok (m.keys.map fun k => (k, value k)) := by
    have hentry : ∀ e ∈ m.entries,
        (do return (e.1, ← score.of e.2) : Except Fault (String × Float)) =
          .ok (e.1, value e.1) := by
      intro e he
      refine Run.bind_eq_ok.mpr ⟨value e.1, Run.mapError_eq_ok.mpr ?_, rfl⟩
      exact h e.1 e.2 ((Catalog.mem_entries hnodup).mp he)
    rw [scored, Run.mapM_eq_map hentry, Catalog.keys, List.map_map]
    rfl
  set es := m.keys.map fun k => (k, value k) with hes
  have hperm : (es.mergeSort before).Perm es := List.mergeSort_perm es before
  have hordered : (es.mergeSort before).Pairwise fun a b => before a b = true :=
    @List.pairwise_mergeSort _ before (fun _ _ _ => before_trans) before_total es
  have hsort : sort m score = .ok ((es.mergeSort before).map (·.1)) := by
    rw [sort, hentries]
    rfl
  refine ⟨_, hsort, ?_, ?_⟩
  · have hkeys : es.map (·.1) = m.keys := by
      rw [hes, List.map_map]
      exact List.map_id _
    rw [← hkeys]
    exact hperm.map _
  · have hscore : ∀ e ∈ es.mergeSort before, e.2 = value e.1 := by
      intro e he
      obtain ⟨k, -, rfl⟩ := List.mem_map.mp (hperm.mem_iff.mp he)
      rfl
    rw [List.pairwise_map]
    refine hordered.imp_of_mem fun {a b} ha hb hab => ?_
    rwa [← hscore a ha, ← hscore b hb]

/-! ### Pages -/

/-- **Pages tile a list**: the first pages of one size are what the list starts with. -/
theorem flatMap_pages {α : Type} (xs : List α) (size n : ℕ) :
    ((List.range n).flatMap fun i => (xs.drop (i * size)).take size) = xs.take (n * size) := by
  induction n with
  | zero => rw [Nat.zero_mul, List.take_zero, List.range_zero, List.flatMap_nil]
  | succ n ih =>
      rw [List.range_succ, List.flatMap_append, ih, List.flatMap_singleton, Nat.succ_mul,
        List.take_add]

section

variable {m : Rankings Float} {score : Score} {listed : List String}
  (h : sort m score = .ok listed)
include h

/-- Without bounds, the page is the listing. -/
theorem pageOf_all : pageOf m (.text score.name) (.whole 0) .null = .ok listed := by
  refine Run.bind_eq_ok.mpr ⟨score, score.ofDatum_name, ?_⟩
  refine Run.bind_eq_ok.mpr ⟨.whole 0, rfl, Run.bind_eq_ok.mpr ⟨none, rfl, ?_⟩⟩
  exact Run.bind_eq_ok.mpr ⟨listed, h, rfl⟩

/-- A page is a piece of the listing. -/
theorem pageOf_piece (skip size : ℕ) : pageOf m (.text score.name) (.whole skip) (.whole size) =
    .ok ((listed.drop skip).take size) := by
  have hbound : ∀ (field : String) (n : ℕ), bound field (.whole n) = .ok (.whole n) := by
    intro field n
    have hnegative : ¬(Quantity.whole n).isNegative = true := by
      simp [Quantity.isNegative]
    refine Run.bind_eq_ok.mpr ⟨.whole n, rfl, ?_⟩
    rw [if_neg hnegative]
    rfl
  refine Run.bind_eq_ok.mpr ⟨score, score.ofDatum_name, ?_⟩
  refine Run.bind_eq_ok.mpr ⟨.whole skip, hbound "skip" skip, ?_⟩
  refine Run.bind_eq_ok.mpr ⟨some (.whole size), ?_, Run.bind_eq_ok.mpr ⟨listed, h, rfl⟩⟩
  rw [hbound "max_results" size]
  rfl

end

/-- **Listings are canonical, and their pages tile them.** If each key of a ranking has a score, the
listing has each key once; numbers come before what is none, greater scores first, and equal scores
or those that are no numbers in order of their keys. Every other ranking with the same standings
has the same listing, and pages of one size, each from any such ranking, are together the
listing. -/
theorem pageOf_canonical (score : Score) {m : Rankings Float} (hnodup : m.keys.Nodup)
    (hscore : ∀ k s, m.get? k = some s → ∃ x, score.of s = .ok x) :
    ∃ (value : String → Float) (listed : List String),
      (∀ k s, m.get? k = some s → score.of s = .ok (value k)) ∧
      pageOf m (.text score.name) (.whole 0) .null = .ok listed ∧
      listed.Perm m.keys ∧ listed.Pairwise (Leads value) ∧
      (∀ m' : Rankings Float, m'.keys.Nodup → (∀ k, m'.get? k = m.get? k) →
        pageOf m' (.text score.name) (.whole 0) .null = .ok listed) ∧
      ∀ (size : ℕ) (copies : ℕ → Rankings Float), 1 ≤ size →
        (∀ i, (copies i).keys.Nodup ∧ ∀ k, (copies i).get? k = m.get? k) →
        ∃ pages : ℕ → List String,
          (∀ i, pageOf (copies i) (.text score.name) (.whole (i * size : ℕ)) (.whole size) =
            .ok (pages i) ∧ (pages i).length ≤ size) ∧
          (∀ n, (List.range n).flatMap pages = listed.take (n * size)) ∧
          ∀ n, listed.length ≤ n → (List.range n).flatMap pages = listed := by
  obtain ⟨value, hvalue⟩ := exists_value score hscore
  obtain ⟨listed, hsort, hlisting⟩ := exists_sort hnodup hvalue
  have hcopy : ∀ m' : Rankings Float, m'.keys.Nodup → (∀ k, m'.get? k = m.get? k) →
      sort m' score = .ok listed := by
    intro m' hnodup' hsame
    obtain ⟨listed', hsort', hlisting'⟩ :=
      exists_sort hnodup' fun k s hs => hvalue k s ((hsame k).symm.trans hs)
    have hkeys : m'.keys.Perm m.keys :=
      (Catalog.entries_perm hnodup' hnodup hsame).map Prod.fst
    rw [hsort', hlisting'.unique hlisting hkeys]
  refine ⟨value, listed, hvalue, pageOf_all hsort, hlisting.perm, hlisting.leads hnodup,
    fun m' hnodup' hsame => pageOf_all (hcopy m' hnodup' hsame), ?_⟩
  intro size copies hsize hcopies
  refine ⟨fun i => (listed.drop (i * size)).take size, fun i => ⟨?_, ?_⟩, flatMap_pages listed size,
    fun n hn => ?_⟩
  · exact pageOf_piece (hcopy (copies i) (hcopies i).1 (hcopies i).2) (i * size) size
  · exact List.length_take_le size _
  · rw [flatMap_pages, List.take_of_length_le]
    exact hn.trans (Nat.le_mul_of_pos_right n hsize)

/-- A standing with the given evidence. -/
def withEvidence (total : Float) : Standing Float :=
  { Standing.empty 10 5 with evidence := ⟨total, total, 0⟩ }

/-- A ranking with two keys of equal evidence and one of none that is a number. -/
def tied : Rankings Float :=
  ⟨[("b", withEvidence 1), ("c", withEvidence Double.undefined), ("a", withEvidence 1)]⟩

theorem tied_nodup : tied.keys.Nodup := by
  simp [tied, Catalog.keys]

/-- The entries of the ranking in the reverse order. -/
def tiedReversed : Rankings Float := ⟨tied.entries.reverse⟩

theorem tiedReversed_nodup : tiedReversed.keys.Nodup := by
  rw [tiedReversed, Catalog.keys, List.map_reverse, List.nodup_reverse]
  exact tied_nodup

theorem get?_tiedReversed (k : String) : tiedReversed.get? k = tied.get? k := by
  refine Option.ext fun s => ?_
  rw [← Catalog.mem_entries tiedReversed_nodup, ← Catalog.mem_entries tied_nodup, tiedReversed,
    List.mem_reverse]

theorem pageOf_canonical_sample : ∃ (value : String → Float) (listed : List String),
    (∀ k s, tied.get? k = some s → Score.evidenceTotal.of s = .ok (value k)) ∧
    pageOf tied (.text Score.evidenceTotal.name) (.whole 0) .null = .ok listed ∧
    listed.Perm tied.keys ∧ listed.Pairwise (Leads value) ∧
    pageOf tiedReversed (.text Score.evidenceTotal.name) (.whole 0) .null = .ok listed ∧
    ∃ pages : ℕ → List String,
      (∀ i, pageOf (if i = 0 then tied else tiedReversed) (.text Score.evidenceTotal.name)
        (.whole (i * 2 : ℕ)) (.whole (2 : ℕ)) = .ok (pages i) ∧ (pages i).length ≤ 2) ∧
      (List.range 3).flatMap pages = listed := by
  have hscore : ∀ k s, tied.get? k = some s → ∃ x : Float, Score.evidenceTotal.of s = .ok x :=
    fun k s _ => ⟨s.evidence.total, rfl⟩
  have hcopies : ∀ i : ℕ, (if i = 0 then tied else tiedReversed).keys.Nodup ∧
      ∀ k, (if i = 0 then tied else tiedReversed).get? k = tied.get? k := by
    intro i
    by_cases hi : i = 0
    · rw [if_pos hi]
      exact ⟨tied_nodup, fun k => rfl⟩
    · rw [if_neg hi]
      exact ⟨tiedReversed_nodup, get?_tiedReversed⟩
  obtain ⟨value, listed, hvalue, hlisted, hperm, hleads, hsame, htile⟩ :=
    pageOf_canonical .evidenceTotal tied_nodup hscore
  obtain ⟨pages, hpages, -, hwhole⟩ := htile 2 _ (by decide) hcopies
  exact ⟨value, listed, hvalue, hlisted, hperm, hleads,
    hsame tiedReversed tiedReversed_nodup get?_tiedReversed, pages, hpages,
    hwhole 3 hperm.length_eq.le⟩

end Listing

end Corridor
