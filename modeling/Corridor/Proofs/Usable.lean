import Corridor.Proofs.Accounting
import Corridor.Proofs.Sections

/-!
# Grids That Can Be Used

A grid is refused if its minimal corner exceeds the maximal one, and what is not a number exceeds
nothing and is exceeded by nothing. So bounds that are not finite pass the check, and so do finite
bounds so far apart that the double of their difference is the infinity. These are the only ways to
a grid whose bounds or whose cells are not finite.

## Main results

* `Double.sub_ranges`: the difference of doubles that are in order.
* `Axis.isUsable_iff_spans`: the sides that are cut into cells of a finite size.
* `Grid.exists_build`, `Grid.isAccepted_of_build`: which grids are built.
* `Grid.build_isUsable_iff`: which of them can be used.
-/

namespace Corridor

/-! ### Differences that overflow -/

namespace Double

variable {x y : Float}

/-- The way from `low` to `high` has a length with a finite double. -/
structure Spans (low high : Float) : Prop where
  low_finite : low.isFinite = true
  high_finite : high.isFinite = true
  lt_bound : units high - units low < overflowBound

/-- **A difference of doubles in order** is at least zero, and finite if it is below the bound from
which on numbers are rounded to the infinity. -/
theorem sub_ranges (hx : x.isFinite = true) (hy : y.isFinite = true) (h : y ≤ x) :
    0 ≤ x - y ∧ ((x - y).isFinite = true ↔ units x - units y < overflowBound) := by
  have hle := (le_iff.mp h).2.2
  refine ⟨Double.sub_nonneg hx hy h, ?_⟩
  rw [isFinite_sub_iff hx hy]
  omega

end Double

open Double

/-! ### Sides of a grid -/

/-- The side of a grid from `low` to `high` can be used: its ends are finite and in order, and so
is the size of its cells. -/
structure Axis.IsUsable (low high : Float) (a : Axis Float) : Prop where
  low_finite : low.isFinite = true
  high_finite : high.isFinite = true
  low_le_high : low ≤ high
  size_finite : a.size.isFinite = true
  size_nonneg : 0 ≤ a.size

/-- **A side can be used if its length has a finite double**, whatever number of cells it is cut
into. -/
theorem Axis.isUsable_iff_spans {low high n : Float} (hlow : ¬ high < low)
    (hn : n.isFinite = true) (hone : 1 ≤ n) :
    IsUsable low high ⟨low, (high - low) / n⟩ ↔ Spans low high := by
  have hpos : 0 < n := Double.lt_of_lt_of_le Double.zero_lt_one hone
  constructor
  · intro h
    obtain ⟨hnonneg, hfinite⟩ := sub_ranges h.high_finite h.low_finite h.low_le_high
    refine ⟨h.low_finite, h.high_finite, hfinite.mp ?_⟩
    -- a length without a finite double would leave the infinity to each cell
    cases hsub : (high - low).isFinite with
    | true => rfl
    | false =>
        have hsize := h.size_finite
        rw [eq_infinity_of_nonneg hnonneg hsub, isFinite_infinity_div hpos hn] at hsize
        cases hsize
  · intro h
    have hle : low ≤ high := by
      by_contra hnot
      exact hlow (lt_of_not_le (isNaN_of_isFinite h.low_finite) (isNaN_of_isFinite h.high_finite)
        hnot)
    obtain ⟨hnonneg, hfinite⟩ := sub_ranges h.high_finite h.low_finite hle
    exact ⟨h.low_finite, h.high_finite, hle, isFinite_div (hfinite.mpr h.lt_bound) hn hone,
      Double.div_nonneg hnonneg hpos hn⟩

namespace Grid

/-! ### Grids that are built -/

/-- The corners and the divisions of a grid pass the checks: no corner exceeds the other, and the
divisions are a positive integer that has a double. -/
structure IsAccepted (e : Envelope Float) (divisions : Datum) : Prop where
  lon : ¬ e.maxLon < e.minLon
  lat : ¬ e.maxLat < e.minLat
  divisions : ∃ n : ℕ, divisions = .whole n ∧ 0 < n ∧ n < quotientBound

variable {minLon minLat maxLon maxLat : Float} {divisions : Datum}

theorem eq_of_divisionsOf {n : ℕ} (h : divisionsOf divisions = .ok n) : divisions = .whole n := by
  cases divisions with
  | whole m =>
      rw [divisionsOf] at h
      split_ifs at h with hm
      obtain rfl := Except.ok.inj h
      rw [Int.toNat_of_nonneg hm.le]
  | _ => cases h

/-- What is built was accepted. -/
theorem isAccepted_of_build {g : Grid Float}
    (h : build (.bounds [minLon, minLat, maxLon, maxLat]) divisions = .ok g) :
    IsAccepted ⟨minLon, minLat, maxLon, maxLat⟩ divisions := by
  have hdivisions := divisions_of_build h
  have hlt : g.divisions < quotientBound := by
    obtain ⟨x, hx⟩ := exists_ofInt_divisions h
    rw [ofInt_eq_ite] at hx
    split_ifs at hx with hlt
    simpa using hlt
  obtain ⟨n, -, h⟩ := Run.bind_eq_ok.mp h
  obtain ⟨e, he, -⟩ := Run.bind_eq_ok.mp h
  rw [Extent.envelope] at he
  split_ifs at he with hswapped
  rw [Bool.or_eq_true, decide_eq_true_eq, decide_eq_true_eq, not_or] at hswapped
  exact ⟨hswapped.1, hswapped.2, g.divisions, eq_of_divisionsOf hdivisions,
    divisionsOf_pos hdivisions, hlt⟩

/-! ### Grids that can be used -/

/-- There are cells, and both sides can be used. -/
structure IsUsable (g : Grid Float) : Prop where
  divisions_pos : 0 < g.divisions
  lon : g.lonAxis.IsUsable g.envelope.minLon g.envelope.maxLon
  lat : g.latAxis.IsUsable g.envelope.minLat g.envelope.maxLat

/-- The grid is over the given bounds and divisions, and it can be used exactly if its sides have
lengths. -/
structure IsOver (e : Envelope Float) (divisions : Datum) (g : Grid Float) : Prop where
  envelope : g.envelope = e
  divisions : divisions = .whole g.divisions
  divisions_pos : 0 < g.divisions
  isUsable_iff : g.IsUsable ↔ Spans e.minLon e.maxLon ∧ Spans e.minLat e.maxLat

/-- **What is accepted is built.** -/
theorem exists_build (h : IsAccepted ⟨minLon, minLat, maxLon, maxLat⟩ divisions) :
    ∃ g, build (.bounds [minLon, minLat, maxLon, maxLat]) divisions = .ok g ∧
      IsOver ⟨minLon, minLat, maxLon, maxLat⟩ divisions g := by
  obtain ⟨hlon, hlat, n, rfl, hpos, hlt⟩ := h
  have hx := ofInt_eq_ite n
  rw [if_pos (by simpa using hlt)] at hx
  obtain ⟨hfinite, -, hone⟩ := ofInt_natCast_ranges hx
  have hlonAxis := Axis.isUsable_iff_spans hlon hfinite (hone hpos)
  have hlatAxis := Axis.isUsable_iff_spans hlat hfinite (hone hpos)
  refine ⟨_, build_bounds hpos hlon hlat hx, rfl, rfl, hpos, ?_⟩
  rw [← hlonAxis, ← hlatAxis]
  exact ⟨fun h => ⟨h.lon, h.lat⟩, fun h => ⟨hpos, h.1, h.2⟩⟩

/-- **Grids can be used if their sides have lengths.** Bounds and divisions that pass the checks
make a grid, and others are refused. The grid can be used exactly if its bounds are finite and no
farther apart than a finite double tells. -/
theorem build_isUsable_iff (minLon minLat maxLon maxLat : Float) (divisions : Datum) :
    (IsAccepted ⟨minLon, minLat, maxLon, maxLat⟩ divisions ∧
      ∃ g, build (.bounds [minLon, minLat, maxLon, maxLat]) divisions = .ok g ∧
        IsOver ⟨minLon, minLat, maxLon, maxLat⟩ divisions g) ∨
    (¬ IsAccepted ⟨minLon, minLat, maxLon, maxLat⟩ divisions ∧
      ∃ f, build (.bounds [minLon, minLat, maxLon, maxLat]) divisions = .error f) := by
  by_cases haccepted : IsAccepted ⟨minLon, minLat, maxLon, maxLat⟩ divisions
  · exact .inl ⟨haccepted, exists_build haccepted⟩
  · refine .inr ⟨haccepted, ?_⟩
    cases h : build (.bounds [minLon, minLat, maxLon, maxLat]) divisions with
    | error f => exact ⟨f, rfl⟩
    | ok g => exact absurd (isAccepted_of_build h) haccepted

/-- Corners that are no numbers pass the checks, and so do corners too far apart. -/
theorem build_strayed :
    (∃ g, build (.bounds [undefined, 0, 1, 1]) (.whole 2) = .ok g ∧ ¬ g.IsUsable) ∧
    ∃ g, build (.bounds [-largest, 0, largest, 1]) (.whole 2) = .ok g ∧ ¬ g.IsUsable := by
  have haccepted : ∀ low high : Float, ¬ high < low → IsAccepted ⟨low, 0, high, 1⟩ (.whole 2) :=
    fun low high h => ⟨h, (by decide : ¬ (1 : Float) < 0), 2, rfl, by decide,
      two_pow_lt_quotientBound (k := 1) (by decide)⟩
  constructor
  · obtain ⟨g, hg, hover⟩ := exists_build (haccepted undefined 1 (by decide))
    refine ⟨g, hg, fun h => ?_⟩
    exact absurd (hover.isUsable_iff.mp h).1.low_finite (by decide)
  · obtain ⟨g, hg, hover⟩ := exists_build (haccepted (-largest) largest (by decide))
    refine ⟨g, hg, fun h => ?_⟩
    exact absurd (hover.isUsable_iff.mp h).1.lt_bound (by decide +kernel)

end Grid

end Corridor
