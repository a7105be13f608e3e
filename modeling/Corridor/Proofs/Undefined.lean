import Corridor.Proofs.Ranges

/-!
# Scores That Are Not Numbers

The inverse document frequency of an entity without cells in the box is capped, by the largest
double. Weighted by the density of the entity it is beyond the cap once the entity has more than
one observation per cell of the tube, and then the share of the tube that the entity covers, which
is zero, leaves nothing of the geometric mean that is a number. All other derived scores are
numbers: they are products and roots of numbers that are at least zero, and what is not the cap is
too small to overflow.

## Main results

* `Elementary.isNaN_geometricMean`, `Elementary.geometricMean_nonneg`: the geometric means that are
  not numbers, and those that are.
* `Standing.ExceedsCap`: what takes the weighted frequency beyond the cap.
* `Route.rank_isNaN_iff`: the scores of a ranking that are not numbers.
-/

namespace Corridor

open Double

/-! ### Geometric means of three doubles -/

namespace Double.Elementary

variable {e : Elementary} {a b c : Float}

theorem third_ranges : (1 / Float.ofNat 3).isFinite = true ∧ 0 < 1 / Float.ofNat 3 ∧
    1 / Float.ofNat 3 ≤ 1 := by
  decide +kernel

/-- The mean of a product that is not negative is its root. -/
theorem geometricMean_eq_root (h : ¬1 * a * b * c < 0) :
    @Stats.geometricMean Float e.scalar [a, b, c] = e.root (1 * a * b * c) 3 :=
  if_neg (mt of_decide_eq_true h)

/-- A product that is not a number has no mean. -/
theorem isNaN_geometricMean (h : (1 * a * b * c).isNaN = true) :
    (@Stats.geometricMean Float e.scalar [a, b, c]).isNaN = true := by
  have hlt : ¬1 * a * b * c < 0 := fun hlt => by
    rw [(lt_iff.mp hlt).1] at h
    cases h
  rw [geometricMean_eq_root hlt, root, if_pos h]
  decide

variable (he : e.IsFaithful)
include he

/-- A product that is at least zero has a mean that is. -/
theorem geometricMean_nonneg (h : 0 ≤ 1 * a * b * c) :
    0 ≤ @Stats.geometricMean Float e.scalar [a, b, c] := by
  obtain ⟨hfinite, hpos, -⟩ := third_ranges
  rw [geometricMean_eq_root (not_lt_of_le h)]
  exact root_nonneg he hfinite hpos h

/-- The mean of a small product is small. -/
theorem upTo_geometricMean {k : ℕ} (hk : k < 1024) (h : UpTo k (1 * a * b * c)) :
    UpTo k (@Stats.geometricMean Float e.scalar [a, b, c]) := by
  obtain ⟨hfinite, hpos, hle⟩ := third_ranges
  rw [geometricMean_eq_root (not_lt_of_le h.1)]
  exact upTo_root he hfinite hpos hle hk h

end Double.Elementary

/-! ### Scores of a standing -/

/-- The scores that are derived from what a standing counts. -/
def Score.derived : List Score := [.idf, .tfIdf, .scaledTfIdf, .evenness, .place, .combined]

namespace Standing

/-- An entity without cells in the box that has more than one observation per cell of the tube. -/
def ExceedsCap (s : Standing Float) : Prop :=
  s.boxCells = 0 ∧ ∃ d, s.density = .ok d ∧ 1 < d

namespace Counts

variable {s : Standing Float} {n : ℕ} (h : s.Counts n)
include h

/-- The observations in the tube, as a double. -/
theorem ofInt_tubeCount {x : Float} (hx : Scalar.ofInt s.tubeCount = .ok x) :
    x.isFinite = true ∧ 0 ≤ x := by
  obtain ⟨m, hm⟩ := Int.eq_ofNat_of_zero_le h.tubeCount_nonneg
  rw [hm] at hx
  obtain ⟨hfinite, hnonneg, -⟩ := ofInt_natCast_ranges hx
  exact ⟨hfinite, hnonneg⟩

/-- The density of an entity that was not observed too often. -/
theorem exists_density (hle : s.tubeCount ≤ 2 ^ 1000) :
    ∃ d, s.density = .ok d ∧ UpTo 1000 d := by
  by_cases h0 : s.tubeSize = 0
  · exact ⟨0, if_pos h0, upTo_zero.mono (Nat.zero_le _)⟩
  · have hpos : 0 < s.tubeSize := lt_of_le_of_ne h.tubeSize_nonneg (Ne.symm h0)
    have hmul : s.tubeCount ≤ 2 ^ 1000 * s.tubeSize :=
      hle.trans (le_mul_of_one_le_right (pow_nonneg zero_le_two _) hpos)
    have hbound : (2 ^ 1000 : ℤ) < quotientBound := by
      exact_mod_cast two_pow_lt_quotientBound (k := 1000) (by decide)
    obtain ⟨d, hd, -, -, -, hrange⟩ := Elementary.exists_quotient .native h.tubeCount_nonneg hpos
      (hmul.trans_lt (mul_lt_mul_of_pos_right hbound hpos))
    exact ⟨d, (if_neg h0).trans hd, hrange 1000 (by decide) hmul⟩

/-- An entity without cells in the box covers nothing of the tube. -/
theorem coverage_eq_zero (e : Elementary) (h0 : s.boxCells = 0) : s.score e .coverage = .ok 0 := by
  have hscore : s.score e .coverage =
      if s.tubeSize = 0 then .ok 0 else e.scalar.quotient s.tubeCells s.tubeSize := rfl
  have hcells : s.tubeCells = (0 : ℕ) := by
    have := h.tubeCells_nonneg
    have := h.tubeCells_le.trans (min_le_left _ _)
    omega
  rw [hscore]
  split_ifs with hsize
  · rfl
  · obtain ⟨m, hm⟩ := Int.eq_ofNat_of_zero_le h.tubeSize_nonneg
    have hpos : 0 < m := by omega
    have hquotient := Elementary.ofQuotient?_natCast 0 hpos
    rw [Nat.zero_mul, ofSignedUnitRatio_zero hpos,
      if_pos (Nat.mul_pos (zero_lt_one.trans one_lt_quotientBound) hpos)] at hquotient
    rw [hcells, hm]
    exact Elementary.quotient_of_eq_some e hquotient

/-- The inverse document frequency is at least zero, and small unless it is the cap. -/
theorem idf_ranges {e : Elementary} (he : e.IsFaithful) {x : Float}
    (hx : s.score e .idf = .ok x) :
    x.isFinite = true ∧ 0 ≤ x ∧ (s.boxCells ≠ 0 → UpTo 10 x) := by
  by_cases h0 : s.boxCells = 0
  · have hcap : s.score e .idf = .ok largest := if_pos h0
    obtain rfl := Except.ok.inj (hcap.symm.trans hx)
    exact ⟨isFinite_largest, largest_nonneg, fun hne => absurd h0 hne⟩
  · have hpos : 0 < s.boxCells := lt_of_le_of_ne h.boxCells_nonneg (Ne.symm h0)
    rcases lt_or_ge (n * n : ℤ) (quotientBound * s.boxCells) with hfit | hlarge
    · obtain ⟨y, hy, hrange⟩ := h.exists_idf hpos he hfit
      obtain rfl := Except.ok.inj (hy.symm.trans hx)
      exact ⟨hrange.2.1, hrange.1, fun _ => hrange⟩
    · rw [h.idf_eq_error hpos e hlarge] at hx
      cases hx

end Counts

variable {s : Standing Float} {n : ℕ} {e : Elementary} {x : Float}

/-- The evenness of an entity whose spread is at least zero; `y` is the scaled spread. -/
theorem exists_evenness (e : Elementary) {d : Float} (hspread : 0 ≤ s.spread)
    (hd : s.density = .ok d) (hfinite : d.isFinite = true) :
    ∃ y, 0 ≤ y ∧ s.score e .evenness = .ok (e.exp (-y)) := by
  have hscaled : 0 ≤ if decide (0 < d) = true then s.spread / d else 0 := by
    split_ifs with hpos
    · exact Double.div_nonneg hspread (of_decide_eq_true hpos) hfinite
    · exact zero_nonneg
  exact ⟨_, hscaled, Run.bind_eq_ok.mpr ⟨_, Run.bind_eq_ok.mpr ⟨d, hd, rfl⟩,
    Elementary.exponential_neg e hscaled⟩⟩

/-- What goes into the score of the place beside the inverse document frequency. -/
structure PlaceParts (s : Standing Float) (e : Elementary) (d c v : Float) : Prop where
  density : s.density = .ok d
  coverage : s.score e .coverage = .ok c
  evenness : s.score e .evenness = .ok v

/-- The weighted inverse document frequency. -/
theorem scaledTfIdf_eq_ok {d : Float} (hd : s.density = .ok d) :
    s.score e .scaledTfIdf = .ok x ↔ ∃ i, s.score e .idf = .ok i ∧ i * d = x := by
  constructor
  · intro h
    obtain ⟨i, hi, h⟩ := Run.bind_eq_ok.mp h
    obtain ⟨d', hd', h⟩ := Run.bind_eq_ok.mp h
    obtain rfl := Except.ok.inj (hd.symm.trans hd')
    exact ⟨i, hi, Except.ok.inj h⟩
  · rintro ⟨i, hi, rfl⟩
    exact Run.bind_eq_ok.mpr ⟨i, hi, Run.bind_eq_ok.mpr ⟨d, hd, rfl⟩⟩

/-- The score of the place, once its parts are known. -/
theorem PlaceParts.place_eq_ok {d c v : Float} (h : s.PlaceParts e d c v) :
    s.score e .place = .ok x ↔
      ∃ i, s.score e .idf = .ok i ∧ @Stats.geometricMean Float e.scalar [i * d, c, v] = x := by
  constructor
  · intro hx
    obtain ⟨w, hw, hx⟩ := Run.bind_eq_ok.mp hx
    obtain ⟨c', hc, hx⟩ := Run.bind_eq_ok.mp hx
    obtain ⟨v', hv, hx⟩ := Run.bind_eq_ok.mp hx
    obtain rfl := Except.ok.inj (h.coverage.symm.trans hc)
    obtain rfl := Except.ok.inj (h.evenness.symm.trans hv)
    obtain ⟨i, hi, rfl⟩ := (scaledTfIdf_eq_ok h.density).mp hw
    exact ⟨i, hi, Except.ok.inj hx⟩
  · rintro ⟨i, hi, rfl⟩
    exact Run.bind_eq_ok.mpr ⟨_, (scaledTfIdf_eq_ok h.density).mpr ⟨i, hi, rfl⟩,
      Run.bind_eq_ok.mpr ⟨c, h.coverage, Run.bind_eq_ok.mpr ⟨v, h.evenness, rfl⟩⟩⟩

/-- The combined score, by whether there is evidence. -/
theorem score_combined (s : Standing Float) (e : Elementary) : s.score e .combined =
    if decide (0 < s.evidence.total) = true then
      s.score e .place >>= fun p => e.logarithm (s.evidence.total + 1) >>= fun l =>
        .ok (@Stats.geometricMean Float e.scalar [p, l, s.evidence.max])
    else .ok 0 :=
  rfl

/-- What the combined score is the mean of. -/
theorem of_combined_eq_ok (h : s.score e .combined = .ok x) :
    x = 0 ∨ 0 < s.evidence.total ∧ ∃ p l, s.score e .place = .ok p ∧
      e.logarithm (s.evidence.total + 1) = .ok l ∧
      @Stats.geometricMean Float e.scalar [p, l, s.evidence.max] = x := by
  rw [score_combined] at h
  split_ifs at h with hpos
  · obtain ⟨p, hp, h⟩ := Run.bind_eq_ok.mp h
    obtain ⟨l, hl, h⟩ := Run.bind_eq_ok.mp h
    exact .inr ⟨of_decide_eq_true hpos, p, l, hp, hl, Except.ok.inj h⟩
  · exact .inl (Except.ok.inj h).symm

namespace IsHeld

variable (h : s.IsHeld n) (hle : s.tubeCount ≤ 2 ^ 1000)
include h hle

/-- The parts of the score of the place, and their ranges; `y` is the scaled spread. -/
theorem exists_placeParts (e : Elementary) : ∃ d c y, s.PlaceParts e d c (e.exp (-y)) ∧
    UpTo 1000 d ∧ (0 ≤ c ∧ c ≤ 1) ∧ 0 ≤ y := by
  obtain ⟨d, hd, hrange⟩ := h.exists_density hle
  obtain ⟨c, hc, hunit⟩ := h.exists_coverage e
  obtain ⟨y, hy, hevenness⟩ := exists_evenness e h.spread_nonneg hd hrange.2.1
  exact ⟨d, c, y, ⟨hd, hc, hevenness⟩, hrange, hunit, hy⟩

/-- **Beyond the cap**, the score of the place is not a number. -/
theorem isNaN_place (e : Elementary) (hcap : s.ExceedsCap) :
    ∃ x, s.score e .place = .ok x ∧ x.isNaN = true := by
  obtain ⟨h0, d, hd, hgt⟩ := hcap
  obtain ⟨d', c, y, hparts, hrange, -, -⟩ := h.exists_placeParts hle e
  obtain rfl := Except.ok.inj (hd.symm.trans hparts.density)
  obtain rfl := Except.ok.inj ((h.coverage_eq_zero e h0).symm.trans hparts.coverage)
  have hidf : s.score e .idf = .ok largest := if_pos h0
  refine ⟨_, hparts.place_eq_ok.mpr ⟨largest, hidf, rfl⟩, Elementary.isNaN_geometricMean ?_⟩
  -- the cap overflows, and the infinity meets the share of the tube, which is zero
  have hone : 1 * infinity = infinity := by decide
  rw [largest_mul_eq_infinity hgt hrange.2.1, hone]
  exact isNaN_mul_of_isNaN (isNaN_infinity_mul isFinite_zero magnitude_zero) _

variable (he : e.IsFaithful)
include he

/-- The score of the place of an entity with cells in the box is small. -/
theorem upTo_place (h0 : s.boxCells ≠ 0) (hx : s.score e .place = .ok x) : UpTo 1010 x := by
  obtain ⟨d, c, y, hparts, hrange, ⟨hc0, hc1⟩, hy⟩ := h.exists_placeParts hle e
  obtain ⟨i, hi, rfl⟩ := hparts.place_eq_ok.mp hx
  obtain ⟨-, -, hidf⟩ := h.idf_ranges he hi
  obtain ⟨hv0, hv1⟩ := Elementary.exp_neg_ranges he hy
  -- the exponents of the factors add up, and those of the last two are zero
  have hweighted := (hidf h0).mul hrange (by decide)
  have hfirst := upTo_one.mul hweighted (by decide)
  have hcovered := hfirst.mul (upTo_of_le_one hc0 hc1) (by decide)
  have hproduct := hcovered.mul (upTo_of_le_one hv0 hv1) (by decide)
  exact Elementary.upTo_geometricMean he (by decide) hproduct

/-- Up to the cap, the score of the place is at least zero. -/
theorem place_nonneg {d : Float} (hd : s.density = .ok d) (hd1 : d ≤ 1)
    (hx : s.score e .place = .ok x) : 0 ≤ x := by
  obtain ⟨d', c, y, hparts, hrange, ⟨hc0, hc1⟩, hy⟩ := h.exists_placeParts hle e
  obtain rfl := Except.ok.inj (hd.symm.trans hparts.density)
  obtain ⟨i, hi, rfl⟩ := hparts.place_eq_ok.mp hx
  obtain ⟨hifinite, hi0, -⟩ := h.idf_ranges he hi
  obtain ⟨hv0, hv1⟩ := Elementary.exp_neg_ranges he hy
  have hweighted := mul_ranges_of_le_one hifinite hi0 hrange.1 hd1
  have hfirst := mul_ranges_of_le_one hweighted.1 hweighted.2 one_nonneg Double.one_le_one
  rw [Double.mul_comm hweighted.1 isFinite_one] at hfirst
  have hcovered := mul_ranges_of_le_one hfirst.1 hfirst.2 hc0 hc1
  exact Elementary.geometricMean_nonneg he
    (mul_ranges_of_le_one hcovered.1 hcovered.2 hv0 hv1).2

/-- The score of the place is not a number beyond the cap only. -/
theorem isNaN_place_iff (hx : s.score e .place = .ok x) : x.isNaN = true ↔ s.ExceedsCap := by
  constructor
  · intro hnan
    by_contra hcap
    have hnonneg : 0 ≤ x := by
      by_cases h0 : s.boxCells = 0
      · obtain ⟨d, hd, hrange⟩ := h.exists_density hle
        refine h.place_nonneg hle he hd ?_ hx
        by_contra hgt
        exact hcap ⟨h0, d, hd, lt_of_not_le (isNaN_of_nonneg hrange.1) isNaN_one hgt⟩
      · exact (h.upTo_place hle he h0 hx).1
    rw [isNaN_of_nonneg hnonneg] at hnan
    cases hnan
  · intro hcap
    obtain ⟨y, hy, hnan⟩ := h.isNaN_place hle e hcap
    obtain rfl := Except.ok.inj (hy.symm.trans hx)
    exact hnan

/-- The combined score is at least zero: an entity with evidence has cells in the box. -/
theorem combined_nonneg (hx : s.score e .combined = .ok x) : 0 ≤ x := by
  rcases of_combined_eq_ok hx with rfl | ⟨hpos, p, l, hp, hl, rfl⟩
  · exact zero_nonneg
  · obtain ⟨htotal, hmax⟩ := h.evidence.ranges
    obtain ⟨hmaxpos, hmaxfinite⟩ := hmax hpos
    have h0 : s.boxCells ≠ 0 := fun h0 => by
      rw [h.unseen h0] at hpos
      exact absurd hpos (by decide)
    obtain ⟨hsum, hone⟩ := Total.add_one_ranges (Double.le_of_lt hpos) htotal
    obtain ⟨l', hl', hlog⟩ := Elementary.exists_logarithm he hsum hone
    obtain rfl := Except.ok.inj (hl.symm.trans hl')
    have hfirst := upTo_one.mul (h.upTo_place hle he h0 hp) (by decide)
    have hproduct := hfirst.mul hlog (by decide)
    exact Elementary.geometricMean_nonneg he
      (Double.mul_nonneg hproduct.1 (Double.le_of_lt hmaxpos) hproduct.2.1 hmaxfinite)

/-- Every other derived score is at least zero. -/
theorem score_nonneg {score : Score} (hscore : score ∈ Score.derived) (hne : score ≠ .place)
    (hx : s.score e score = .ok x) : 0 ≤ x := by
  obtain ⟨d, c, y, hparts, hrange, -, hy⟩ := h.exists_placeParts hle e
  simp only [Score.derived, List.mem_cons, List.not_mem_nil, or_false] at hscore
  rcases hscore with rfl | rfl | rfl | rfl | rfl | rfl
  · exact (h.idf_ranges he hx).2.1
  · obtain ⟨i, hi, hx⟩ := Run.bind_eq_ok.mp hx
    obtain ⟨t, ht, hx⟩ := Run.bind_eq_ok.mp hx
    obtain rfl := Except.ok.inj hx
    obtain ⟨hifinite, hi0, -⟩ := h.idf_ranges he hi
    obtain ⟨htfinite, ht0⟩ := h.ofInt_tubeCount ht
    exact Double.mul_nonneg hi0 ht0 hifinite htfinite
  · obtain ⟨i, hi, rfl⟩ := (scaledTfIdf_eq_ok hparts.density).mp hx
    obtain ⟨hifinite, hi0, -⟩ := h.idf_ranges he hi
    exact Double.mul_nonneg hi0 hrange.1 hifinite hrange.2.1
  · obtain rfl := Except.ok.inj (hparts.evenness.symm.trans hx)
    exact (Elementary.exp_neg_ranges he hy).1
  · exact absurd rfl hne
  · exact h.combined_nonneg hle he hx

end IsHeld

end Standing

/-! ### Scores of a ranking -/

namespace Route

/-- **The scores that are not numbers.** In a ranking by a scorer whose answers are finite, the one
derived score that is not a number is that of the place, and it is none for just those entities
without cells in the box that have more than one observation per cell of the tube. -/
theorem rank_isNaN_iff [Geodesy] (r : Route) {e : Elementary} (he : e.IsFaithful)
    (hscorer : r.scorer.IsFinite) (hsize : r.tube.size ≤ 2 ^ 1000) {extent : Extent}
    {shapes : List (Option Shape)} {divisions : Datum} {m : Rankings Float}
    (h : (Run.start (r.rank extent shapes divisions)).1 = .ok m) :
    ∀ s ∈ m.values, (s.ExceedsCap → ∃ x, s.score e .place = .ok x) ∧
      ∀ score ∈ Score.derived, ∀ x, s.score e score = .ok x →
        (x.isNaN = true ↔ score = .place ∧ s.ExceedsCap) := by
  intro s hs
  obtain ⟨n, hheld⟩ := isHeld_of_rank hscorer h
  obtain ⟨hs, hcount⟩ := hheld s hs
  have hle : s.tubeCount ≤ 2 ^ 1000 := hcount.trans (by exact_mod_cast hsize)
  constructor
  · intro hcap
    obtain ⟨x, hx, -⟩ := hs.isNaN_place hle e hcap
    exact ⟨x, hx⟩
  · intro score hscore x hx
    by_cases hplace : score = .place
    · subst hplace
      rw [hs.isNaN_place_iff hle he hx]
      exact ⟨fun hcap => ⟨rfl, hcap⟩, And.right⟩
    · rw [isNaN_of_nonneg (hs.score_nonneg hle he hscore hplace hx)]
      exact ⟨fun hnan => absurd hnan Bool.false_ne_true, fun hnan => absurd hnan.1 hplace⟩

/-! ### Samples -/

/-- A route with an entity that was observed twice in the tube and never in the box. -/
def strayed : Route :=
  { sample with
    box := .empty
    tube := .ofList [⟨0, "a", 0.5, 0.5, none⟩, ⟨1, "a", 0.5, 0.5, none⟩] }

theorem strayed_isFinite : strayed.scorer.IsFinite := by
  intro divisions n track x hx
  obtain rfl := Except.ok.inj hx
  exact isFinite_one

/-- On a grid with one cell in the tube, that entity exceeds the cap. -/
theorem exists_strayedRanking : ∃ m s, (Run.start (strayed.rank (.bounds [0, 0, 2, 2])
    [some (Shape.box 0 0 1 1)] (.whole (2 : ℕ)))).1 = .ok m ∧ s ∈ m.values ∧ s.ExceedsCap := by
  obtain ⟨grid, cells, hgrid, hcells, hnodup, hlength⟩ := exists_sampleTube
  have hscore : strayed.scorer.ScoresBy fun _ _ => 1 := sample_scoresBy
  have hkeys : strayed.tubeKeys ∩ strayed.boxKeys = ∅ := by decide +kernel
  obtain ⟨m, hm⟩ : ∃ m, (Run.start (strayed.rank (.bounds [0, 0, 2, 2])
      [some (Shape.box 0 0 1 1)] (.whole (2 : ℕ)))).1 = .ok m := by
    refine exists_rank hscore (PingCollection.isValid_ofList []) (by decide +kernel) hgrid hcells
      hnodup (j := 0) (m := 0) (by decide +kernel) hlength.le (by decide) fun k hk => ?_
    rw [hkeys] at hk
    exact absurd hk (Finset.notMem_empty k)
  have hkey : "a" ∈ strayed.tube.pings.map Ping.key := by decide +kernel
  obtain ⟨s, hs, hcounted⟩ := exists_isCounted hm hgrid hcells (.inl hkey)
  refine ⟨m, s, hm, hs, ?_, 2, ?_, by decide⟩
  · rw [hcounted.boxCells]
    rfl
  · have hcount : s.tubeCount = 2 := hcounted.tubeCount.trans (by decide +kernel)
    have htube : s.tubeSize = 1 := by rw [hcounted.tubeSize, hlength, Nat.cast_one]
    have hdensity : s.density = if s.tubeSize = 0 then .ok 0 else
      Scalar.quotient s.tubeCount s.tubeSize := rfl
    rw [hdensity, htube, hcount, if_neg one_ne_zero]
    exact Elementary.quotient_of_eq_some .native (by decide +kernel)

theorem strayed_size_le : strayed.tube.size ≤ 2 ^ 1000 := by
  have htwo : strayed.tube.size = 2 ^ 1 := by decide +kernel
  exact htwo.trans_le (pow_le_pow_right₀ one_le_two (by decide))

theorem rank_isNaN_iff_strayed : Elementary.exact.IsFaithful ∧ strayed.scorer.IsFinite ∧
    strayed.tube.size ≤ 2 ^ 1000 ∧ ∃ m s, (Run.start (strayed.rank (.bounds [0, 0, 2, 2])
        [some (Shape.box 0 0 1 1)] (.whole (2 : ℕ)))).1 = .ok m ∧ s ∈ m.values ∧ s.ExceedsCap ∧
      (∃ x, s.score .exact .place = .ok x ∧ x.isNaN = true) ∧
      ∀ score ∈ Score.derived, ∀ x, s.score .exact score = .ok x →
        (x.isNaN = true ↔ score = .place) := by
  obtain ⟨m, s, hm, hs, hcap⟩ := exists_strayedRanking
  obtain ⟨hplace, hall⟩ := rank_isNaN_iff strayed Elementary.isFaithful_exact strayed_isFinite
    strayed_size_le hm s hs
  obtain ⟨x, hx⟩ := hplace hcap
  refine ⟨Elementary.isFaithful_exact, strayed_isFinite, strayed_size_le, m, s, hm, hs, hcap,
    ⟨x, hx, ?_⟩, fun score hscore y hy => ?_⟩
  · exact (hall .place (by decide) x hx).mpr ⟨rfl, hcap⟩
  · rw [hall score hscore y hy, and_iff_left hcap]

/-- The score of the place of an entity that was seen in the tube only is not a number, though the
scorer answers with finite numbers. -/
theorem rank_place_strayed : strayed.scorer.IsFinite ∧ ∃ m s x,
    (Run.start (strayed.rank (.bounds [0, 0, 2, 2]) [some (Shape.box 0 0 1 1)]
        (.whole (2 : ℕ)))).1 = .ok m ∧ s ∈ m.values ∧
      Score.place.of s = .ok x ∧ x.isNaN = true := by
  obtain ⟨m, s, hm, hs, hcap⟩ := exists_strayedRanking
  obtain ⟨n, hheld⟩ := isHeld_of_rank strayed_isFinite hm
  obtain ⟨hstanding, hcount⟩ := hheld s hs
  have hle : s.tubeCount ≤ 2 ^ 1000 := hcount.trans (by exact_mod_cast strayed_size_le)
  obtain ⟨x, hx, hnan⟩ := hstanding.isNaN_place hle .native hcap
  rw [Standing.score_native] at hx
  exact ⟨strayed_isFinite, m, s, x, hm, hs, hx, hnan⟩

end Route

end Corridor
