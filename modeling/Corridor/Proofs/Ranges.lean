import Corridor.Proofs.Accounting
import Corridor.Proofs.Calls
import Corridor.Proofs.Number.TotalRange

/-!
# Ranges of What a Ranking Holds

The numbers that a ranking holds of an entity are not arbitrary ones: a spread is not negative, and
evidence is a summary of scores. With scores that are finite, so is their total, and it is positive
only if the greatest of them is. These are properties of a result, whatever the trace before it, so
they are carried through runs by `Run.Ensures`, which asks nothing of how often the scorer was
called before.

## Main results

* `Stats.deviation_nonneg`: deviations are at least zero.
* `Evidence.IsSummary.ranges`: the total and the greatest of finite scores.
* `Route.isHeld_of_rank`: what a ranking holds of each entity.
-/

namespace Corridor

open Double

/-! ### What the result of a run has -/

namespace Run

variable {α β : Type}

/-- A result that is not a fault has a property, whatever the trace before it. -/
def Ensures (r : Run α) (P : α → Prop) : Prop := ∀ t a, (resume t r).1 = .ok a → P a

namespace Ensures

variable {r : Run α} {f : α → Run β} {P : α → Prop} {Q : β → Prop}

theorem pure {a : α} (h : P a) : Ensures (Pure.pure a) P := by
  intro t b hb
  obtain rfl := Except.ok.inj hb
  exact h

theorem ofExcept {x : Except Fault α} (h : ∀ a, x = .ok a → P a) : Ensures (Run.ofExcept x) P :=
  fun _ a ha => h a ha

theorem bind (hr : Ensures r P) (hf : ∀ a, P a → Ensures (f a) Q) : Ensures (r >>= f) Q := by
  intro t b hb
  obtain ⟨a, t', ha, hb⟩ := resume_bind_eq_ok.mp hb
  exact hf a (hr t a (congrArg Prod.fst ha)) t' b hb

/-- A part whose result is not used. -/
theorem after (hf : ∀ a, Ensures (f a) Q) : Ensures (r >>= f) Q :=
  bind (P := fun _ => True) (fun _ _ _ => trivial) fun a _ => hf a

theorem guarded {kinds : List Kind} {context : String} {level : Level} (hlevel : level ≠ .debug)
    (hr : Ensures r P) : Ensures (Run.guarded kinds context level r) P := by
  intro t a ha
  rcases hres : resume t r with ⟨e | b, t'⟩
  · rw [resume_guarded_of_error hlevel hres] at ha
    cases ha
  · rw [resume_guarded hres] at ha
    obtain rfl := Except.ok.inj ha
    exact hr t b (congrArg Prod.fst hres)

theorem mapM {as : List α} (h : ∀ a ∈ as, Ensures (f a) Q) :
    Ensures (as.mapM f) fun bs => ∀ b ∈ bs, Q b := by
  induction as with
  | nil => exact pure (by simp)
  | cons a as ih =>
      rw [List.forall_mem_cons] at h
      rw [List.mapM_cons]
      refine bind h.1 fun b hb => bind (ih h.2) fun bs hbs => ?_
      exact pure (List.forall_mem_cons.mpr ⟨hb, hbs⟩)

end Ensures

end Run

/-! ### Evidence of finite scores -/

/-- A scorer whose answers are finite, as far as it answers. -/
def Scorer.IsFinite (scorer : Scorer) : Prop :=
  ∀ divisions n track x, scorer.answer divisions n track = .ok x → x.isFinite = true

namespace Evidence

/-- The summary of some finite scores. -/
def IsSummary (e : Evidence Float) : Prop :=
  ∃ scores : List Float, (∀ x ∈ scores, x.isFinite = true) ∧ summarize scores = .ok e

theorem isSummary_nothing : IsSummary nothing := ⟨[], by simp, rfl⟩

theorem scoreTracklet_ensures {scorer : Scorer} (h : scorer.IsFinite) (divisions : Datum)
    (tracklet : List Ping) :
    Run.Ensures (scoreTracklet scorer divisions tracklet) fun x => x.isFinite = true := by
  refine Run.Ensures.guarded (by decide) (Run.Ensures.after fun track => ?_)
  refine Run.Ensures.after fun n => ?_
  refine Run.Ensures.bind (P := fun score => scorer n track divisions = .ok score)
    (Run.Ensures.ofExcept fun _ hscore => hscore) fun score hscore => ?_
  refine Run.Ensures.ofExcept fun x hx => h divisions n track x ?_
  exact Run.bind_eq_ok.mpr ⟨score, hscore, hx⟩

theorem ofPings_ensures [Geodesy] {scorer : Scorer} (h : scorer.IsFinite) (limits : MotionLimits)
    (divisions : Datum) (ps : List Ping) :
    Run.Ensures (ofPings scorer limits divisions ps) IsSummary := by
  refine Run.Ensures.after fun tracklets => ?_
  refine Run.Ensures.bind (Run.Ensures.mapM fun tracklet _ =>
    scoreTracklet_ensures h divisions tracklet) fun scores hscores => ?_
  exact Run.Ensures.ofExcept fun e he => ⟨scores, hscores, Run.mapError_eq_ok.mp he⟩

end Evidence

/-! ### Greatest of finite scores -/

namespace Stats

/-- The greatest of a list is one of its members, and exceeds none of them. -/
theorem greatest_ranges {x : Float} {xs : List Float} (hx : x.isFinite = true)
    (hxs : ∀ y ∈ xs, y.isFinite = true) :
    (greatest x xs).isFinite = true ∧ ∀ y ∈ x :: xs, units y ≤ units (greatest x xs) := by
  induction xs generalizing x with
  | nil => exact ⟨hx, by simp [greatest]⟩
  | cons z zs ih =>
      rw [List.forall_mem_cons] at hxs
      have hlarger : (Scalar.larger x z).isFinite = true ∧ units x ≤ units (Scalar.larger x z) ∧
          units z ≤ units (Scalar.larger x z) := by
        rw [Scalar.larger]
        by_cases hlt : x < z
        · have hscalar : Scalar.lt x z = true := decide_eq_true hlt
          rw [if_pos hscalar]
          exact ⟨hxs.1, (lt_iff.mp hlt).2.2.le, le_rfl⟩
        · have hscalar : ¬Scalar.lt x z = true := fun h => hlt (of_decide_eq_true h)
          rw [if_neg hscalar]
          refine ⟨hx, le_rfl, not_lt.mp fun h => hlt (lt_iff.mpr ⟨?_, ?_, h⟩)⟩
          · exact isNaN_of_isFinite hx
          · exact isNaN_of_isFinite hxs.1
      obtain ⟨hfinite, hle⟩ := ih hlarger.1 hxs.2
      rw [List.forall_mem_cons] at hle
      refine ⟨hfinite, ?_⟩
      rw [List.forall_mem_cons, List.forall_mem_cons]
      exact ⟨hlarger.2.1.trans hle.1, hlarger.2.2.trans hle.1, hle.2⟩

end Stats

namespace Evidence

/-- **Evidence of finite scores**: its total is finite, and positive only if the greatest of the
scores is. -/
theorem IsSummary.ranges {e : Evidence Float} (h : e.IsSummary) :
    e.total.isFinite = true ∧ (0 < e.total → 0 < e.max ∧ e.max.isFinite = true) := by
  obtain ⟨scores, hfinite, h⟩ := h
  cases scores with
  | nil =>
      obtain rfl := Except.ok.inj h
      exact ⟨isFinite_zero, fun hpos => absurd hpos (by decide)⟩
  | cons s ss =>
      obtain ⟨total, htotal, h⟩ := Run.bind_eq_ok.mp h
      obtain ⟨n, -, h⟩ := Run.bind_eq_ok.mp h
      obtain ⟨d, -, h⟩ := Run.bind_eq_ok.mp h
      obtain rfl := Except.ok.inj h
      obtain ⟨hrange, hsum⟩ := Total.isFinite_of_ofList hfinite htotal
      refine ⟨hrange, fun hpos => ?_⟩
      obtain ⟨hgreatest, hle⟩ := Stats.greatest_ranges (hfinite s List.mem_cons_self)
        fun y hy => hfinite y (List.mem_cons_of_mem s hy)
      refine ⟨pos_iff.mpr ⟨isNaN_of_isFinite hgreatest, ?_⟩, hgreatest⟩
      by_contra hneg
      -- a greatest score that is not positive bounds the sum, and with it the total, by zero
      have hnonpos : ((s :: ss).map units).sum ≤ 0 := by
        have hbound := List.sum_le_card_nsmul ((s :: ss).map units) 0 fun u hu => by
          obtain ⟨y, hy, rfl⟩ := List.mem_map.mp hu
          exact (hle y hy).trans (not_lt.mp hneg)
        rwa [nsmul_zero] at hbound
      have hbelow := (le_iff.mp (ofUnits_le isFinite_zero (hnonpos.trans_eq units_zero.symm))).2.2
      rw [← hsum] at hbelow
      exact absurd (lt_iff.mp hpos).2.2 (not_lt.mpr hbelow)

end Evidence

/-! ### Spreads of finite counts -/

namespace Stats

variable {xs : List Float} {c d : Float}

/-- The mean of numbers that are at least zero is at least zero. -/
theorem mean_nonneg (hne : xs ≠ []) (hxs : ∀ x ∈ xs, 0 ≤ x) (h : mean xs = .ok c) : 0 ≤ c := by
  obtain ⟨t, ht, h⟩ := Run.bind_eq_ok.mp h
  obtain ⟨n, hn, h⟩ := Run.bind_eq_ok.mp h
  obtain rfl := Except.ok.inj h
  obtain ⟨hfinite, -, hone⟩ := ofInt_natCast_ranges hn
  have hpos : 0 < n := Double.lt_of_lt_of_le Double.zero_lt_one (hone (List.length_pos_iff.mpr hne))
  exact Double.div_nonneg (Total.ofList_nonneg hxs ht) hpos hfinite

/-- The mean of finite numbers is finite. -/
theorem isFinite_mean (hne : xs ≠ []) (hxs : ∀ x ∈ xs, x.isFinite = true) (h : mean xs = .ok c) :
    c.isFinite = true := by
  obtain ⟨t, ht, h⟩ := Run.bind_eq_ok.mp h
  obtain ⟨n, hn, h⟩ := Run.bind_eq_ok.mp h
  obtain rfl := Except.ok.inj h
  obtain ⟨hfinite, -, hone⟩ := ofInt_natCast_ranges hn
  have hlength := hone (List.length_pos_iff.mpr hne)
  exact isFinite_div (Total.isFinite_of_ofList hxs ht).1 hfinite hlength

/-- **Deviations are at least zero.** -/
theorem deviation_nonneg (hxs : ∀ x ∈ xs, x.isFinite = true) (h : deviation xs = .ok d) :
    0 ≤ d := by
  rw [deviation] at h
  cases xs with
  | nil =>
      obtain rfl := Except.ok.inj h
      decide
  | cons x xs =>
      obtain ⟨c, hc, h⟩ := Run.bind_eq_ok.mp h
      have hcentre := isFinite_mean (List.cons_ne_nil x xs) hxs hc
      obtain ⟨q, hq, h⟩ := Run.bind_eq_ok.mp h
      obtain rfl := Except.ok.inj h
      refine Double.sqrt_nonneg (mean_nonneg (by simp) (fun y hy => ?_) hq)
      obtain ⟨z, hz, rfl⟩ := List.mem_map.mp hy
      exact Double.mul_self_nonneg (isNaN_sub (hxs z hz) hcentre)

end Stats

namespace Coverage

/-- The spread of an entity is at least zero. -/
theorem spread_nonneg {g : Grid Float} {ps : List Ping} {cells : List Cell} {k : String} {d : Float}
    (h : spread g ps cells k = .ok d) : 0 ≤ d := by
  rw [spread] at h
  split_ifs at h
  · obtain rfl := Except.ok.inj h
    decide
  · rw [CellCounts.spreadOfCounts] at h
    obtain ⟨counts, hcounts, h⟩ := Run.bind_eq_ok.mp h
    refine Stats.deviation_nonneg (fun x hx => ?_) h
    rcases List.mem_append.mp hx with hx | hx
    · obtain ⟨z, hz, hof⟩ := Run.exists_of_mem_mapM hcounts hx
      obtain ⟨cell, -, rfl⟩ := List.mem_map.mp hz
      exact (ofInt_natCast_ranges hof).1
    · rw [List.eq_of_mem_replicate hx]
      exact isFinite_zero

end Coverage

/-! ### What a ranking holds -/

/-- What holds of the standing of an entity in a ranking by a scorer whose answers are finite. -/
structure Standing.IsHeld (divisions : ℕ) (s : Standing Float) : Prop
    extends s.Counts divisions where
  spread_nonneg : 0 ≤ s.spread
  evidence : s.evidence.IsSummary
  /-- An entity that touches no cell was not seen in the box. -/
  unseen : s.boxCells = 0 → s.evidence = Evidence.nothing
  /-- An entity that was not seen in the tube is not scored. -/
  unscored : s.tubeCount = 0 → s.evidence = Evidence.nothing

namespace Route

variable {r : Route}

/-- The evidence of each entity is a summary, and there is none but of those that are both in the
box and in the tube. -/
theorem evidence_ensures [Geodesy] (h : r.scorer.IsFinite) : Run.Ensures r.evidence fun ev =>
    ∀ e ∈ ev.entries, e.1 ∈ r.box.pings.map Ping.key ∧ e.2.IsSummary ∧
      (e.1 ∈ r.tube.pings.map Ping.key ∨ e.2 = Evidence.nothing) := by
  refine Run.Ensures.bind (P := fun groups => ∀ e ∈ groups.entries, e.1 ∈ r.box.pings.map Ping.key)
    (Run.Ensures.ofExcept fun groups hgroups e he => ?_) fun groups hgroups => ?_
  · rw [PingCollection.groups] at hgroups
    split_ifs at hgroups
    obtain rfl := Except.ok.inj hgroups
    obtain ⟨k, hk, rfl⟩ := List.mem_map.mp he
    exact List.mem_eraseDups.mp hk
  · refine Run.Ensures.bind (Run.Ensures.mapM fun e he => ?_) fun es hes => Run.Ensures.pure hes
    split_ifs with htube
    · refine Run.Ensures.bind (Evidence.ofPings_ensures h _ _ _) fun x hx => ?_
      exact Run.Ensures.pure
        ⟨hgroups e he, hx, .inl (List.mem_toFinset.mp (contains_countKeys.mp htube))⟩
    · exact Run.Ensures.pure ⟨hgroups e he, Evidence.isSummary_nothing, .inr rfl⟩

/-- The counts of each entity in a ranking bound one another, and its spread is at least zero,
whatever the scorer answers. -/
theorem counts_of_rank [Geodesy] {extent : Extent} {shapes : List (Option Shape)}
    {divisions : Datum} {m : Rankings Float}
    (h : (Run.start (r.rank extent shapes divisions)).1 = .ok m) :
    ∃ n, Grid.divisionsOf (orConfigured divisions r.settings.gridDivisions) = .ok n ∧
      ∀ s ∈ m.values, s.Counts n ∧ 0 ≤ s.spread := by
  obtain ⟨grid, cells, sp, ev, t, hgrid, hcells, hsp, -, rfl⟩ := parts_of_rank h
  have htally := isTally_standings r grid cells sp ev
  refine ⟨grid.divisions, Grid.divisions_of_build hgrid, fun s hs => ?_⟩
  obtain ⟨⟨k, s⟩, hentry, rfl⟩ := List.mem_map.mp hs
  have hget := (Catalog.mem_entries htally.nodup).mp hentry
  refine ⟨(htally.counted k s hget).counts hgrid hcells, ?_⟩
  have hspread : s.spread = sp.getD k Scalar.zero := by rw [Coverage.eq_of_get?_standings hget]
  exact hspread ▸ Coverage.spread_nonneg (Coverage.getD_spreads _ hsp k)

/-- **What a ranking holds** of each entity. -/
theorem isHeld_of_rank [Geodesy] {extent : Extent} {shapes : List (Option Shape)}
    {divisions : Datum} {m : Rankings Float} (hscorer : r.scorer.IsFinite)
    (h : (Run.start (r.rank extent shapes divisions)).1 = .ok m) :
    ∃ n : ℕ, ∀ s ∈ m.values, s.IsHeld n ∧ s.tubeCount ≤ r.tube.size := by
  obtain ⟨n, -, hcounts⟩ := counts_of_rank h
  obtain ⟨grid, cells, sp, ev, t, hgrid, hcells, hsp, hev, rfl⟩ := parts_of_rank h
  have htally := isTally_standings r grid cells sp ev
  refine ⟨n, fun s hs => ?_⟩
  obtain ⟨hcounts, hspread⟩ := hcounts s hs
  obtain ⟨⟨k, s⟩, hentry, rfl⟩ := List.mem_map.mp hs
  have hget := (Catalog.mem_entries htally.nodup).mp hentry
  have hcounted := htally.counted k s hget
  have hevidence : s.evidence = ev.getD k Evidence.nothing := by
    rw [Coverage.eq_of_get?_standings hget]
  have hsummaries := evidence_ensures hscorer t ev hev
  have hfound := ev.getD_eq_or_mem k Evidence.nothing
  rw [← hevidence] at hfound
  refine ⟨⟨hcounts, hspread, ?_, fun h0 => ?_, fun h0 => ?_⟩, ?_⟩
  · rcases hfound with hnone | hentry
    · rw [hnone]
      exact Evidence.isSummary_nothing
    · exact (hsummaries _ hentry).2.1
  · rcases hfound with hnone | hentry
    · exact hnone
    · have hseen := hcounted.one_le_boxCells (hsummaries _ hentry).1
      exact absurd h0 (zero_lt_one.trans_le hseen).ne'
  · rcases hfound with hnone | hentry
    · exact hnone
    · refine (hsummaries _ hentry).2.2.resolve_left fun hk => ?_
      rw [hcounted.tubeCount, Nat.cast_eq_zero] at h0
      exact absurd hk (List.count_eq_zero.mp h0)
  · rw [hcounted.tubeCount]
    exact_mod_cast List.count_le_length.trans_eq (List.length_map _)

end Route

end Corridor
