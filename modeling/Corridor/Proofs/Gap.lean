import Corridor.Proofs.SetLevel

/-!
# Motion Across a Long Gap

A ping that comes too long after the last one starts a new tracklet, and what was before the gap
is not looked at again. Hence the tracklets of two stretches of observations with a long gap
between them are those of the first and then those of the second, and the evidence of both
together has the total and the greatest score of the evidence of the two merged.

This is so where comparing times is transitive. Where it is not, the order of the second stretch
depends on what stands before it in the list, though all of that is earlier.

## Main results

* `Tracklet.segment_append_of_gap`: the tracklets of two stretches.
* `Tracklet.segment_append_night`: two stretches of which the second has no order.
* `Evidence.merge_of_gap`: their tracklets and their evidence.
-/

namespace Corridor

namespace Tracklet

/-- Every ping of the first list is earlier than every ping of the second, and between the latest
of the first and the earliest of the second lies at least the greatest time between pings. -/
structure GapBetween (limits : MotionLimits) (ps qs : List Ping) : Prop where
  earlier : ∀ p ∈ ps, ∀ q ∈ qs, p.isBefore q = true
  gap : ∀ p ∈ ps, ∀ q ∈ qs, (∀ p' ∈ ps, p.isBefore p' = false) →
    (∀ q' ∈ qs, q'.isBefore q = false) →
    ∃ d, Leg.duration ⟨p, q⟩ = .ok d ∧ Quantity.isAtMost d limits.gap = true

variable {limits : MotionLimits} {ps qs : List Ping}

/-- **Tracklets do not reach across a long gap.** -/
theorem segment_append_of_gap [Geodesy] {zoned : Bool} (htimed : ∀ p ∈ ps ++ qs, p.TimedAs zoned)
    (hconsistent : Ping.Consistent (ps ++ qs)) (hgap : GapBetween limits ps qs) :
    ∃ first second, segment limits ps = .ok first ∧ segment limits qs = .ok second ∧
      segment limits (ps ++ qs) = .ok (first ++ second) := by
  obtain ⟨hps, hqs⟩ := List.forall_mem_append.mp htimed
  obtain ⟨sorted, first, -, hsort, hfirst, hgreedy⟩ :=
    exists_segment limits (Ping.uniformTimes_of_timedAs hps)
  obtain ⟨sorted', second, -, hsort', hsecond, hgreedy'⟩ :=
    exists_segment limits (Ping.uniformTimes_of_timedAs hqs)
  obtain ⟨all, tracklets, -, hall, hsegment, htracklets⟩ :=
    exists_segment limits (Ping.uniformTimes_of_timedAs htimed)
  rw [Ping.filter_isTimed hps] at hsort
  rw [Ping.filter_isTimed hqs] at hsort'
  rw [Ping.filter_isTimed htimed] at hall
  have hstable := hsort.stable (hconsistent.mono (List.subset_append_left ps qs))
  have hstable' := hsort'.stable (hconsistent.mono (List.subset_append_right ps qs))
  -- the pings of both in order are those of the first and then those of the second
  have hordered := hstable.append Ping.isAsymmetric_isBefore hstable' hgap.earlier
  obtain rfl := hordered.unique Ping.isAsymmetric_isBefore (hall.stable hconsistent)
  have hbreak : ∀ g ∈ first.getLast?, ∀ next ∈ second.head?,
      Partition.Broken (Motion.continues limits) g next := by
    intro g hg next hnext p hp
    rw [hgreedy'.head?_eq hnext] at hp
    obtain ⟨last, hlast⟩ : ∃ last, last ∈ g.getLast? :=
      Option.isSome_iff_exists.mp
        (List.getLast?_isSome.mpr (hgreedy.ne_nil g (List.mem_of_getLast? hg)))
    have hlatest := hstable.latest Ping.isAsymmetric_isBefore (hgreedy.getLast?_eq hg ▸ hlast)
    have hearliest := hstable'.earliest Ping.isAsymmetric_isBefore hp
    obtain ⟨d, hd, hlong⟩ := hgap.gap last hlatest.1 p hearliest.1 hlatest.2 hearliest.2
    exact Motion.continues_of_gap hlast hd hlong
  obtain rfl := htracklets.unique (hgreedy.append hgreedy' hbreak)
  exact ⟨first, second, hfirst, hsecond, hsegment⟩

/-- Two times in UTC on the day before that night. -/
def eve : List Ping :=
  [.clocked 4 (Ping.civil 2024 10 26 0 11) (.fixed 0),
    .clocked 5 (Ping.civil 2024 10 26 0 17) (.fixed 0)]

theorem timedAs_eve_night : ∀ p ∈ eve ++ Ping.night, p.TimedAs true := by decide +kernel

/-- The gap between the two stretches is long. -/
theorem gapBetween_eve_night : GapBetween ⟨.whole 1, .whole 1000, .whole 10⟩ eve Ping.night := by
  have hlong : ∀ p ∈ eve, ∀ q ∈ Ping.night, p.isBefore q = true ∧
      Quantity.isAtMost (Double.ofRatio (p.microsTo q).natAbs 1000000) (.whole 1) = true := by
    decide +kernel
  obtain ⟨heve, hnight⟩ := List.forall_mem_append.mp timedAs_eve_night
  refine ⟨fun p hp q hq => (hlong p hp q hq).1, fun p hp q hq _ _ => ⟨_, ?_, (hlong p hp q hq).2⟩⟩
  exact Leg.duration_eq (heve p hp) (hnight q hq)

set_option maxRecDepth 1000 in
/-- **Where comparing is not transitive**, a stretch may fall into other tracklets when an earlier
one stands before it, though the gap between them is long. -/
theorem segment_append_night :
    (∀ p ∈ eve ++ Ping.night, p.TimedAs true) ∧
    GapBetween ⟨.whole 1, .whole 1000, .whole 10⟩ eve Ping.night ∧
    segment ⟨.whole 1, .whole 1000, .whole 10⟩ eve = .ok [[eve[0]], [eve[1]]] ∧
    segment ⟨.whole 1, .whole 1000, .whole 10⟩ Ping.night =
      .ok [[Ping.night[1]], [Ping.night[0]], [Ping.night[3]], [Ping.night[2]]] ∧
    segment ⟨.whole 1, .whole 1000, .whole 10⟩ (eve ++ Ping.night) =
      .ok [[eve[0]], [eve[1]], [Ping.night[3]], [Ping.night[1]], [Ping.night[0]],
        [Ping.night[2]]] := by
  have heve : Sorting.sort Ping.isBefore eve = eve := Sorting.sort_of_isChain (by decide +kernel)
  have hnight : Sorting.sort Ping.isBefore Ping.night =
      [Ping.night[1], Ping.night[0], Ping.night[3], Ping.night[2]] := by cbv
  have hboth : Sorting.sort Ping.isBefore (eve ++ Ping.night) =
      [eve[0], eve[1], Ping.night[3], Ping.night[1], Ping.night[0], Ping.night[2]] := by cbv
  obtain ⟨htimed, htimed'⟩ := List.forall_mem_append.mp timedAs_eve_night
  refine ⟨timedAs_eve_night, gapBetween_eve_night, segment_of_gaps htimed heve ?_,
    segment_of_gaps htimed' hnight ?_, segment_of_gaps timedAs_eve_night hboth ?_⟩
  all_goals decide +kernel

end Tracklet

namespace Evidence

/-- The evidence in the pings of one entity by a scorer that does not count its calls, with the
scores read as other numbers before they are summed up. -/
def readAs [Geodesy] {α : Type} [Scalar α] (read : Float → α) (scorer : Scorer)
    (limits : MotionLimits) (divisions : Datum) (ps : List Ping) : Except Fault (Evidence α) := do
  let tracklets ← Tracklet.segment limits ps
  let scores ← tracklets.mapM (scoreOf scorer divisions)
  summarize (scores.map read)

/-- With its scores read as they are, it is the evidence that a run finds. -/
theorem ofPings_yields_readAs [Geodesy] {scorer : Scorer} (hpure : scorer.IsPure)
    (limits : MotionLimits) (divisions : Datum) (ps : List Ping) :
    Run.Yields (ofPings scorer limits divisions ps) (readAs id scorer limits divisions ps) := by
  have hread : readAs id scorer limits divisions ps = ofPure scorer limits divisions ps := by
    simp only [readAs, ofPure, List.map_id]
  rw [hread]
  exact ofPings_yields hpure limits divisions ps

variable {limits : MotionLimits} {ps qs : List Ping}

/-- A list with pings has tracklets. -/
theorem ne_nil_of_segment [Geodesy] {zoned : Bool} (htimed : ∀ p ∈ ps, p.TimedAs zoned)
    (hne : ps ≠ []) {tracklets : List (List Ping)}
    (h : Tracklet.segment limits ps = .ok tracklets) : tracklets ≠ [] := by
  obtain ⟨sorted, tracklets', -, hsort, hsegment, hgreedy⟩ :=
    Tracklet.exists_segment limits (Ping.uniformTimes_of_timedAs htimed)
  obtain rfl := Except.ok.inj (h.symm.trans hsegment)
  rintro rfl
  obtain rfl := hgreedy.flatten_eq
  rw [Ping.filter_isTimed htimed] at hsort
  exact hne hsort.perm.nil_eq.symm

section

variable {scorer : Scorer} {score : Track → Datum → Float} (hscore : scorer.ScoresBy score)
include hscore

/-- The evidence is the summary of the scores of the tracklets. -/
theorem readAs_eq_ok [Geodesy] {α : Type} [Scalar α] {read : Float → α} {divisions : Datum}
    (h : Ping.UniformTimes ps) {tracklets : List (List Ping)} {e : Evidence α}
    (hsegment : Tracklet.segment limits ps = .ok tracklets)
    (he : summarize ((scoresOf score divisions tracklets).map read) = .ok e) :
    readAs read scorer limits divisions ps = .ok e := by
  obtain ⟨tracklets', hsegment', hscores, -⟩ := exists_scores hscore limits divisions h
  obtain rfl := Except.ok.inj (hsegment.symm.trans hsegment')
  exact Run.bind_eq_ok.mpr ⟨_, hsegment,
    Run.bind_eq_ok.mpr ⟨_, hscores, Run.mapError_eq_ok.mpr he⟩⟩

/-- The exact evidence in two lists of which the tracklets follow each other has the total and the
greatest score of the merge. -/
theorem exists_merge_of_segment [Geodesy] {zoned : Bool} (htimed : ∀ p ∈ ps ++ qs, p.TimedAs zoned)
    (hps : ps ≠ []) (hqs : qs ≠ []) {first second : List (List Ping)}
    (hfirst : Tracklet.segment limits ps = .ok first)
    (hsecond : Tracklet.segment limits qs = .ok second)
    (hboth : Tracklet.segment limits (ps ++ qs) = .ok (first ++ second)) (divisions : Datum)
    (read : Float → ℝ) :
    ∃ a b e, readAs read scorer limits divisions ps = .ok a ∧
      readAs read scorer limits divisions qs = .ok b ∧
      readAs read scorer limits divisions (ps ++ qs) = .ok e ∧
      e.total = (a.merge b).total ∧ e.max = (a.merge b).max := by
  obtain ⟨htimed_ps, htimed_qs⟩ := List.forall_mem_append.mp htimed
  have hne : ∀ {tracklets}, tracklets ≠ [] →
      (scoresOf score divisions tracklets).map read ≠ [] := by
    intro tracklets h
    simpa [scoresOf] using h
  obtain ⟨a, b, e, ha, hb, he, htotal, hmax⟩ := exists_summarize_append
    (hne (ne_nil_of_segment htimed_ps hps hfirst)) (hne (ne_nil_of_segment htimed_qs hqs hsecond))
  rw [scoresOf, scoresOf, ← List.map_append, ← List.map_append] at he
  exact ⟨a, b, e, readAs_eq_ok hscore (Ping.uniformTimes_of_timedAs htimed_ps) hfirst ha,
    readAs_eq_ok hscore (Ping.uniformTimes_of_timedAs htimed_qs) hsecond hb,
    readAs_eq_ok hscore (Ping.uniformTimes_of_timedAs htimed) hboth he, htotal, hmax⟩

end

/-- **Motion across a long gap.** Of two stretches of timed observations with a long gap between
them, all at times of which comparing is transitive, the tracklets of both together are those of
the first and then those of the second. If neither is empty, and the scores are read as real
numbers, the evidence of both has the total and the greatest score of the evidence of the two
merged. -/
theorem merge_of_gap [Geodesy] (limits : MotionLimits) {zoned : Bool} {ps qs : List Ping}
    (htimed : ∀ p ∈ ps ++ qs, p.TimedAs zoned) (hconsistent : Ping.Consistent (ps ++ qs))
    (hgap : Tracklet.GapBetween limits ps qs) :
    (∃ first second, Tracklet.segment limits ps = .ok first ∧
      Tracklet.segment limits qs = .ok second ∧
      Tracklet.segment limits (ps ++ qs) = .ok (first ++ second)) ∧
    ∀ (scorer : Scorer) (score : Track → Datum → Float) (divisions : Datum) (read : Float → ℝ),
      scorer.ScoresBy score → ps ≠ [] → qs ≠ [] →
      (∀ rs, Run.Yields (ofPings scorer limits divisions rs)
        (readAs id scorer limits divisions rs)) ∧
      ∃ a b e, readAs read scorer limits divisions ps = .ok a ∧
        readAs read scorer limits divisions qs = .ok b ∧
        readAs read scorer limits divisions (ps ++ qs) = .ok e ∧
        e.total = (a.merge b).total ∧ e.max = (a.merge b).max := by
  obtain ⟨first, second, hfirst, hsecond, hboth⟩ :=
    Tracklet.segment_append_of_gap htimed hconsistent hgap
  refine ⟨⟨first, second, hfirst, hsecond, hboth⟩, ?_⟩
  intro scorer score divisions read hscore hps hqs
  exact ⟨ofPings_yields_readAs hscore.pure limits divisions,
    exists_merge_of_segment hscore htimed hps hqs hfirst hsecond hboth divisions read⟩

/-- A minute is allowed between pings. -/
def sampleLimits : MotionLimits := ⟨.whole 60, .whole 1000, .whole 5⟩

/-- A scorer that gives every track the same score. -/
def evenScorer : Scorer := fun _ _ _ => .ok (.real 1)

/-- Two observations ten seconds apart. -/
def morning : List Ping :=
  [⟨0, "a", 0, 0, some ⟨0, none⟩⟩, ⟨1, "a", 0, 0.001, some ⟨10000000, none⟩⟩]

/-- Two observations, of which the earlier is listed last. -/
def evening : List Ping :=
  [⟨2, "a", 0, 1, some ⟨170000000, none⟩⟩, ⟨3, "a", 0, 1, some ⟨100000000, none⟩⟩]

/-- The ninety seconds between the two stretches are a long gap. -/
theorem gapBetween_sample : Tracklet.GapBetween sampleLimits morning evening := by
  refine ⟨by decide +kernel, fun p hp q hq hlatest hearliest => ?_⟩
  have hp_last : p.isBefore morning[1] = false := hlatest morning[1] (by simp [morning])
  have hq_first : evening[1].isBefore q = false := hearliest evening[1] (by simp [evening])
  simp only [morning, evening, List.mem_cons, List.not_mem_nil, or_false] at hp hq
  rcases hp with rfl | rfl
  · exact absurd hp_last (by decide)
  rcases hq with rfl | rfl
  · exact absurd hq_first (by decide)
  exact ⟨_, rfl, by decide +kernel⟩

theorem merge_of_gap_sample :
    (∃ first second, Tracklet.segment sampleLimits morning = .ok first ∧
      Tracklet.segment sampleLimits evening = .ok second ∧
      Tracklet.segment sampleLimits (morning ++ evening) = .ok (first ++ second)) ∧
    ∃ a b e : Evidence ℝ,
      readAs Double.toReal evenScorer sampleLimits (.whole 100) morning = .ok a ∧
      readAs Double.toReal evenScorer sampleLimits (.whole 100) evening = .ok b ∧
      readAs Double.toReal evenScorer sampleLimits (.whole 100) (morning ++ evening) = .ok e ∧
      e.total = (a.merge b).total ∧ e.max = (a.merge b).max := by
  have htimed : ∀ p ∈ morning ++ evening, p.TimedAs false := by
    intro p hp
    simp only [morning, evening, List.cons_append, List.nil_append, List.mem_cons,
      List.not_mem_nil, or_false] at hp
    rcases hp with rfl | rfl | rfl | rfl <;> exact ⟨_, rfl, rfl⟩
  have hscore : evenScorer.ScoresBy fun _ _ => 1 :=
    ⟨fun _ _ _ _ => rfl, fun _ _ => ⟨_, rfl, rfl⟩⟩
  have hconsistent : Ping.Consistent (morning ++ evening) := by
    rw [Ping.Consistent]
    decide +kernel
  obtain ⟨hsegments, hevidence⟩ := merge_of_gap sampleLimits htimed hconsistent gapBetween_sample
  obtain ⟨-, hmerge⟩ := hevidence evenScorer (fun _ _ => 1) (.whole 100) Double.toReal hscore
    (by simp [morning]) (by simp [evening])
  exact ⟨hsegments, hmerge⟩

end Evidence

end Corridor
