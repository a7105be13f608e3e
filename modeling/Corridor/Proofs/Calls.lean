import Corridor.Proofs.SetLevel

/-!
# Calls of the Scorer

A ranking asks its scorer about the tracklets of the entities that are in the box and in the
tube, one call after the other, and stops at the first call that fails. The trace tells which
calls were made and what was logged. Here the scorer may answer as it likes: its answers may
depend on how often it was called before, and a call may fail with any fault.

The tracks that are to be scored are known before any of them is (`Route.plan`), so what a run
does is said by the calls about a list of tracks, numbered from some number on: either all of
them are answered (`Scorer.Answers`), or the last of the first few is the first that fails
(`Scorer.Fails`).

## Main results

* `Scorer.answers_or_fails`: one of the two is the case.
* `Evidence.resume_scoreTracklet`: what one call does to the trace.
* `Route.resume_entries`, `Route.resume_entries_of_fails`: what all of them do.
* `Route.rank_calls`: the result and the trace of a ranking.
-/

namespace Corridor

/-! ### Traces that go on -/

/-- The trace with more calls and more records. -/
def Trace.extend (t : Trace) (calls : List ScorerCall) (logs : List LogRecord) : Trace :=
  ⟨t.calls ++ calls, t.logs ++ logs⟩

namespace Trace

variable (t : Trace) (calls : List ScorerCall) (logs : List LogRecord)

@[simp] theorem calls_extend : (t.extend calls logs).calls = t.calls ++ calls := rfl

@[simp] theorem extend_nil : t.extend [] [] = t := by
  simp [extend]

@[simp] theorem extend_extend (calls' : List ScorerCall) (logs' : List LogRecord) :
    (t.extend calls logs).extend calls' logs' = t.extend (calls ++ calls') (logs ++ logs') := by
  simp [extend, List.append_assoc]

@[simp] theorem empty_extend : empty.extend calls logs = ⟨calls, logs⟩ := rfl

end Trace

namespace Run

variable {α : Type} (t : Trace)

/-- Nothing is done for an empty list. -/
theorem resume_mapM_nil {β : Type} (f : α → Run β) :
    resume t (([] : List α).mapM f) = (.ok [], t.extend [] []) := by
  rw [Trace.extend_nil]
  rfl

/-- A part that leaves no trace. -/
theorem resume_of_eq_ok {x : Except Fault α} {a : α} (h : x = .ok a) :
    resume t (liftM x) = (.ok a, t) := by
  rw [h]
  rfl

/-- A part that only computes with numbers. -/
theorem resume_of_arithmetic {x : Except ArithmeticFault α} {a : α} (h : x = .ok a) :
    resume t (liftM x) = (.ok a, t) := by
  rw [h]
  rfl

theorem resume_noteCall (call : ScorerCall) :
    resume t (noteCall call) = (.ok t.calls.length, t.extend [call] []) := by
  simp only [Trace.extend, List.append_nil]
  rfl

theorem resume_log {level : Level} (h : level ≠ .debug) (message : String) :
    resume t (log level message) = (.ok (), t.extend [] [⟨level, message⟩]) := by
  rw [log, if_neg h, Trace.extend, List.append_nil]
  rfl

/-- A part that has a result, before the rest. -/
theorem resume_bind_of_ok {β : Type} {t t' : Trace} {r : Run α} {a : α}
    (h : resume t r = (.ok a, t')) (f : α → Run β) : resume t (r >>= f) = resume t' (f a) := by
  rw [resume_bind, h]

/-- A part that fails leaves nothing to do. -/
theorem resume_bind_of_error {β : Type} {t t' : Trace} {r : Run α} {e : Fault}
    (h : resume t r = (.error e, t')) (f : α → Run β) : resume t (r >>= f) = (.error e, t') := by
  rw [resume_bind, h]

/-- What is logged of a fault of guarded work. -/
def recordsOf (kinds : List Kind) (context : String) (level : Level) (f : Fault) :
    List LogRecord :=
  if kinds.any f.kind.isA then
    [⟨level, (if context.isEmpty then "" else context ++ ": ") ++ f.kind.name ++ ": " ++ f.text⟩]
  else []

variable {t} {t' : Trace} {kinds : List Kind} {context : String} {level : Level} {r : Run α}

theorem resume_guarded {a : α} (h : resume t r = (.ok a, t')) :
    resume t (guarded kinds context level r) = (.ok a, t') := by
  rw [guarded, resume_tryCatch, h]

theorem resume_guarded_of_error {e : Fault} (hlevel : level ≠ .debug)
    (h : resume t r = (.error e, t')) : resume t (guarded kinds context level r) =
      (.error e, t'.extend [] (recordsOf kinds context level e)) := by
  rw [guarded, resume_tryCatch, h, recordsOf]
  dsimp only
  by_cases hkind : kinds.any e.kind.isA = true
  · rw [if_pos hkind, if_pos hkind]
    exact resume_bind_of_ok (resume_log t' hlevel _) _
  · rw [if_neg hkind, if_neg hkind, Trace.extend_nil]
    rfl

end Run

/-! ### Calls about a list of tracks -/

/-- The calls about the tracks in turn. -/
def ScorerCall.about (divisions : Datum) (tracks : List Track) : List ScorerCall :=
  tracks.map fun track => ⟨track, divisions⟩

namespace Scorer

variable (scorer : Scorer) (divisions : Datum)

/-- The score that a call gives, as a double. -/
def answer (n : ℕ) (track : Track) : Except Fault Float := do
  let score ← scorer n track divisions
  score.toFloat

/-- All calls about the tracks, numbered from a number on, are answered. -/
inductive Answers : ℕ → List Track → List Float → Prop
  | nil (n : ℕ) : Answers n [] []
  | cons {n : ℕ} {track : Track} {tracks : List Track} {x : Float} {xs : List Float} :
      scorer.answer divisions n track = .ok x → Answers (n + 1) tracks xs →
        Answers n (track :: tracks) (x :: xs)

/-- Of the calls about the tracks, numbered from a number on, the last one fails and no other. -/
inductive Fails : ℕ → List Track → Fault → Prop
  | here {n : ℕ} {track : Track} {f : Fault} :
      scorer.answer divisions n track = .error f → Fails n [track] f
  | later {n : ℕ} {track : Track} {tracks : List Track} {x : Float} {f : Fault} :
      scorer.answer divisions n track = .ok x → Fails (n + 1) tracks f →
        Fails n (track :: tracks) f

/-- The sums of the scores of each group of tracks fit, if one group is asked about after the
other, as far as calls are answered. -/
def GroupsFit : ℕ → List (List Track) → Prop
  | _, [] => True
  | n, tracks :: groups => ∀ xs, scorer.Answers divisions n tracks xs →
      Evidence.SumsFit xs ∧ GroupsFit (n + tracks.length) groups

variable {scorer divisions}

/-- **Either all calls are answered, or one is the first that fails.** -/
theorem answers_or_fails (n : ℕ) (tracks : List Track) :
    (∃ xs, scorer.Answers divisions n tracks xs) ∨
      ∃ asked f, asked <+: tracks ∧ scorer.Fails divisions n asked f := by
  induction tracks generalizing n with
  | nil => exact .inl ⟨[], .nil n⟩
  | cons track tracks ih =>
      cases hanswer : scorer.answer divisions n track with
      | error f =>
          exact .inr ⟨[track], f, List.cons_prefix_cons.mpr ⟨rfl, List.nil_prefix⟩, .here hanswer⟩
      | ok x =>
          rcases ih (n + 1) with ⟨xs, hxs⟩ | ⟨asked, f, hasked, hfails⟩
          · exact .inl ⟨x :: xs, .cons hanswer hxs⟩
          · exact .inr ⟨track :: asked, f, List.cons_prefix_cons.mpr ⟨rfl, hasked⟩,
              .later hanswer hfails⟩

/-- There is one score for each track. -/
theorem Answers.length_eq {n : ℕ} {tracks : List Track} {xs : List Float}
    (h : scorer.Answers divisions n tracks xs) : xs.length = tracks.length := by
  induction h with
  | nil => rfl
  | cons _ _ ih => rw [List.length_cons, List.length_cons, ih]

/-- The scores of two lists of tracks, one after the other. -/
theorem Answers.of_append {n : ℕ} {tracks tracks' : List Track} {xs : List Float}
    (h : scorer.Answers divisions n (tracks ++ tracks') xs) :
    ∃ ys zs, scorer.Answers divisions n tracks ys ∧
      scorer.Answers divisions (n + tracks.length) tracks' zs := by
  induction tracks generalizing n xs with
  | nil => exact ⟨[], xs, .nil n, h⟩
  | cons track tracks ih =>
      cases h with
      | cons hanswer hrest =>
          obtain ⟨ys, zs, hys, hzs⟩ := ih hrest
          refine ⟨_ :: ys, zs, .cons hanswer hys, ?_⟩
          rwa [List.length_cons, Nat.add_comm tracks.length, ← Nat.add_assoc]

/-- The first call that fails, of those about two lists of tracks, is about one of the first list
or about one of the second. -/
theorem Fails.of_append {n : ℕ} {tracks tracks' asked : List Track} {f : Fault}
    (hasked : asked <+: tracks ++ tracks') (h : scorer.Fails divisions n asked f) :
    (asked <+: tracks) ∨ ∃ ys asked', asked = tracks ++ asked' ∧ asked' <+: tracks' ∧
      scorer.Answers divisions n tracks ys ∧
      scorer.Fails divisions (n + tracks.length) asked' f := by
  induction tracks generalizing n asked with
  | nil => exact .inr ⟨[], asked, rfl, hasked, .nil n, h⟩
  | cons track tracks ih =>
      cases h with
      | here hanswer =>
          obtain ⟨rfl, -⟩ := List.cons_prefix_cons.mp hasked
          exact .inl (List.cons_prefix_cons.mpr ⟨rfl, List.nil_prefix⟩)
      | later hanswer hrest =>
          obtain ⟨rfl, hlater⟩ := List.cons_prefix_cons.mp hasked
          rcases ih hlater hrest with hfirst | ⟨ys, asked', rfl, hasked', hys, hfails⟩
          · exact .inl (List.cons_prefix_cons.mpr ⟨rfl, hfirst⟩)
          · refine .inr ⟨_ :: ys, asked', rfl, hasked', .cons hanswer hys, ?_⟩
            rwa [List.length_cons, Nat.add_comm tracks.length, ← Nat.add_assoc]

end Scorer

/-! ### Scoring tracklets -/

namespace Evidence

variable {scorer : Scorer} {divisions : Datum} {t : Trace}

/-- What is logged of a fault in scoring. -/
def failureRecords (f : Fault) : List LogRecord :=
  Run.recordsOf loggedKinds "Route motion scoring failed" .error f

/-- **One call**: it is noted, whatever comes of it, and a failure is logged by its kind. -/
theorem resume_scoreTracklet (scorer : Scorer) (divisions : Datum) (t : Trace)
    {tracklet : List Ping} {track : Track} (htrack : Track.ofPings tracklet = .ok track) :
    Run.resume t (scoreTracklet scorer divisions tracklet) =
      match scorer.answer divisions t.calls.length track with
      | .ok x => (.ok x, t.extend [⟨track, divisions⟩] [])
      | .error f => (.error f, t.extend [⟨track, divisions⟩] (failureRecords f)) := by
  have hbody : Run.resume t (do
      let track ← Track.ofPings tracklet
      let call ← Run.noteCall ⟨track, divisions⟩
      let score ← scorer call track divisions
      score.toFloat) =
        (scorer.answer divisions t.calls.length track, t.extend [⟨track, divisions⟩] []) := by
    rw [Run.resume_bind_of_ok (Run.resume_of_eq_ok t htrack),
      Run.resume_bind_of_ok (Run.resume_noteCall t _), Run.resume_bind, Scorer.answer]
    cases hscore : scorer t.calls.length track divisions with
    | error f => rfl
    | ok score => rfl
  cases hanswer : scorer.answer divisions t.calls.length track with
  | ok x =>
      rw [hanswer] at hbody
      exact Run.resume_guarded hbody
  | error f =>
      rw [hanswer] at hbody
      refine (Run.resume_guarded_of_error (by decide) hbody).trans ?_
      rw [Trace.extend_extend]
      rfl

variable {tracklets : List (List Ping)}

/-- Tracklets are scored in turn. -/
theorem resume_scores {xs : List Float}
    (htracks : ∀ g ∈ tracklets, Track.ofPings g = .ok (Track.through g))
    (h : scorer.Answers divisions t.calls.length (tracklets.map Track.through) xs) :
    Run.resume t (tracklets.mapM (scoreTracklet scorer divisions)) =
      (.ok xs, t.extend (ScorerCall.about divisions (tracklets.map Track.through)) []) := by
  induction tracklets generalizing t xs with
  | nil =>
      cases h
      exact Run.resume_mapM_nil t _
  | cons g gs ih =>
      obtain ⟨hg, hgs⟩ := List.forall_mem_cons.mp htracks
      cases h with
      | cons hanswer hrest =>
          have hstep := resume_scoreTracklet scorer divisions t hg
          rw [hanswer] at hstep
          rw [List.mapM_cons, Run.resume_bind_of_ok hstep,
            Run.resume_bind_of_ok (ih hgs (by simpa using hrest)), Trace.extend_extend]
          rfl

/-- The scoring of tracklets ends at the first call that fails. -/
theorem resume_scores_of_fails {asked : List Track} {f : Fault}
    (htracks : ∀ g ∈ tracklets, Track.ofPings g = .ok (Track.through g))
    (hasked : asked <+: tracklets.map Track.through)
    (h : scorer.Fails divisions t.calls.length asked f) :
    Run.resume t (tracklets.mapM (scoreTracklet scorer divisions)) =
      (.error f, t.extend (ScorerCall.about divisions asked) (failureRecords f)) := by
  induction tracklets generalizing t asked with
  | nil =>
      obtain rfl := List.prefix_nil.mp hasked
      cases h
  | cons g gs ih =>
      obtain ⟨hg, hgs⟩ := List.forall_mem_cons.mp htracks
      have hstep := resume_scoreTracklet scorer divisions t hg
      rw [List.map_cons] at hasked
      cases h with
      | here hanswer =>
          obtain ⟨rfl, -⟩ := List.cons_prefix_cons.mp hasked
          rw [hanswer] at hstep
          rw [List.mapM_cons, Run.resume_bind_of_error hstep]
          rfl
      | later hanswer hrest =>
          obtain ⟨rfl, hlater⟩ := List.cons_prefix_cons.mp hasked
          rw [hanswer] at hstep
          rw [List.mapM_cons, Run.resume_bind_of_ok hstep,
            Run.resume_bind_of_error (ih hgs hlater (by simpa using hrest)), Trace.extend_extend]
          rfl

variable {limits : MotionLimits} {ps : List Ping}

/-- The evidence of one entity, of which every call is answered. -/
theorem resume_ofPings [Geodesy] {xs : List Float} {m : ℕ}
    (hsegment : Tracklet.segment limits ps = .ok tracklets)
    (htracks : ∀ g ∈ tracklets, Track.ofPings g = .ok (Track.through g))
    (hlen : tracklets.length ≤ 2 ^ m) (hm : m < 1024) (hfit : SumsFit xs)
    (h : scorer.Answers divisions t.calls.length (tracklets.map Track.through) xs) :
    ∃ e, summarize xs = .ok e ∧ Run.resume t (ofPings scorer limits divisions ps) =
      (.ok e, t.extend (ScorerCall.about divisions (tracklets.map Track.through)) []) := by
  have hlength : xs.length ≤ 2 ^ m := by
    rw [h.length_eq, List.length_map]
    exact hlen
  obtain ⟨e, he⟩ := exists_summarize hfit hlength hm
  refine ⟨e, he, ?_⟩
  rw [ofPings, Run.resume_bind_of_ok (Run.resume_of_eq_ok t hsegment),
    Run.resume_bind_of_ok (resume_scores htracks h), Run.resume_of_arithmetic _ he]

/-- The evidence of one entity, of which a call fails. -/
theorem resume_ofPings_of_fails [Geodesy] {asked : List Track} {f : Fault}
    (hsegment : Tracklet.segment limits ps = .ok tracklets)
    (htracks : ∀ g ∈ tracklets, Track.ofPings g = .ok (Track.through g))
    (hasked : asked <+: tracklets.map Track.through)
    (h : scorer.Fails divisions t.calls.length asked f) :
    Run.resume t (ofPings scorer limits divisions ps) =
      (.error f, t.extend (ScorerCall.about divisions asked) (failureRecords f)) := by
  rw [ofPings, Run.resume_bind_of_ok (Run.resume_of_eq_ok t hsegment),
    Run.resume_bind_of_error (resume_scores_of_fails htracks hasked h)]

end Evidence

namespace Route

variable (r : Route)

/-! ### The plan of a ranking -/

/-- Of some entities, those that were seen in the tube. -/
def seen (ks : List String) : List String := ks.filter fun k => decide (k ∈ r.tubeKeys)

/-- The entities that are scored: those of the box that were seen in the tube, in the box's order
of first appearance. -/
def scoredKeys : List String := r.seen (r.box.pings.map Ping.key).eraseDups

/-- The tracklets of an entity in the box. -/
def tracklets [Geodesy] (k : String) : List (List Ping) :=
  (Tracklet.segment r.settings.motionLimits (r.pingsOf k)).toOption.getD []

/-- The tracks of an entity in the box. -/
def tracksOf [Geodesy] (k : String) : List Track := (r.tracklets k).map Track.through

/-- The tracks that a ranking asks its scorer about. -/
def plan [Geodesy] : List Track := r.scoredKeys.flatMap r.tracksOf

/-- The calls about tracks that a ranking makes. -/
def callsOn (tracks : List Track) : List ScorerCall :=
  ScorerCall.about (.whole r.settings.routeDivisions) tracks

theorem callsOn_append (tracks tracks' : List Track) :
    r.callsOn (tracks ++ tracks') = r.callsOn tracks ++ r.callsOn tracks' :=
  List.map_append

/-- The next call about further tracks is numbered by how many there were. -/
theorem length_calls_extend (t : Trace) (tracks : List Track) :
    (t.extend (r.callsOn tracks) []).calls.length = t.calls.length + tracks.length := by
  rw [Trace.calls_extend, List.length_append, callsOn, ScorerCall.about, List.length_map]

/-- What is logged of the cells of the tube before anything is scored. -/
def warnings (grid : Grid Float) (cells : List Cell) : List LogRecord :=
  if cells.isEmpty then
    [⟨.warning, "No grid cell centre intersects the route buffer (" ++ grid.display ++ ")"⟩]
  else []

/-- The tracklets of an entity are what its timed pings in order of time are segmented into, and
the track of each goes through its pings as they stand. -/
structure IsSegmented [Geodesy] (k : String) : Prop where
  segment : Tracklet.segment r.settings.motionLimits (r.pingsOf k) = .ok (r.tracklets k)
  order : Ping.IsStableSort ((r.pingsOf k).filter Ping.isTimed) (r.tracklets k).flatten
  tracks : ∀ g ∈ r.tracklets k, Track.ofPings g = .ok (Track.through g)
  length_le : (r.tracklets k).length ≤ r.box.size

variable {r}

theorem seen_cons_of_mem {k : String} (h : k ∈ r.tubeKeys) (ks : List String) :
    r.seen (k :: ks) = k :: r.seen ks :=
  List.filter_cons_of_pos (p := fun k => decide (k ∈ r.tubeKeys)) (decide_eq_true h)

theorem seen_cons_of_not_mem {k : String} (h : k ∉ r.tubeKeys) (ks : List String) :
    r.seen (k :: ks) = r.seen ks :=
  List.filter_cons_of_neg (p := fun k => decide (k ∈ r.tubeKeys)) (by simpa using h)

/-- The tracklets of an entity exist. -/
theorem isSegmented [Geodesy] (hbox : r.box.IsValid) (k : String) : r.IsSegmented k := by
  have huniform : Ping.UniformTimes (r.pingsOf k) :=
    hbox.uniform.mono (List.filter_sublist.subset)
  obtain ⟨sorted, gs, -, hsort, hsegment, hgreedy⟩ :=
    Tracklet.exists_segment r.settings.motionLimits huniform
  have htracklets : r.tracklets k = gs := by
    rw [tracklets, hsegment]
    rfl
  refine ⟨htracklets ▸ hsegment, ?_, fun g hg => ?_, ?_⟩
  · rw [htracklets, hgreedy.flatten_eq]
    exact hsort.stable (hbox.consistent List.filter_sublist.subset)
  · rw [htracklets] at hg
    obtain ⟨-, horder⟩ := Tracklet.inOrder_tracklet hsort hgreedy huniform hg
    exact Run.bind_eq_ok.mpr ⟨g, horder, rfl⟩
  · rw [htracklets]
    exact (Tracklet.length_tracklets_le hsort hgreedy).trans (List.length_filter_le _ _)

/-! ### The evidence of all entities -/

/-- The evidence of one entity of the box, beside its key. -/
def entry [Geodesy] (r : Route) (k : String) : Run (String × Evidence Float) := do
  if r.tube.countKeys.contains k then return (k, ← r.evidenceFor .null (r.pingsOf k))
  else return (k, Evidence.nothing)

/-- The evidence is put together from that of each entity. -/
theorem resume_evidence_eq [Geodesy] (t : Trace)
    (htellable : ∀ p ∈ r.box.pings, PingCollection.isTellable p = true) :
    Run.resume t r.evidence = Run.resume t (do
      let entries ← (r.box.pings.map Ping.key).eraseDups.mapM r.entry
      return ⟨entries⟩) := by
  have hgroups : r.box.groups = .ok (Catalog.tabulate (r.box.pings.map Ping.key) r.pingsOf) := by
    rw [PingCollection.groups, if_pos (List.all_eq_true.mpr htellable)]
    rfl
  rw [evidence, Run.resume_bind_of_ok (Run.resume_of_eq_ok t hgroups), Catalog.tabulate,
    List.mapM_map]
  rfl

/-- The keys of the tube. -/
theorem contains_countKeys {k : String} :
    r.tube.countKeys.contains k = true ↔ k ∈ r.tubeKeys := by
  rw [PingCollection.countKeys, Catalog.contains_tally, tubeKeys, List.mem_toFinset]

variable {t : Trace} {k : String} {m : ℕ}

/-- An entity that was never in the tube is not asked about. -/
theorem resume_entry_of_not_mem [Geodesy] (h : k ∉ r.tubeKeys) :
    Run.resume t (r.entry k) = (.ok (k, Evidence.nothing), t) := by
  rw [entry, if_neg (contains_countKeys.not.mpr h)]
  rfl

/-- An entity whose tracks are all answered. -/
theorem resume_entry [Geodesy] (hbox : r.box.IsValid) (hsize : r.box.size ≤ 2 ^ m) (hm : m < 1024)
    (hk : k ∈ r.tubeKeys) {xs : List Float} (hfit : Evidence.SumsFit xs)
    (h : r.scorer.Answers (.whole r.settings.routeDivisions) t.calls.length (r.tracksOf k) xs) :
    ∃ e, Run.resume t (r.entry k) = (.ok (k, e), t.extend (r.callsOn (r.tracksOf k)) []) := by
  obtain ⟨hsegment, -, htracks, hlength⟩ := isSegmented hbox k
  obtain ⟨e, -, he⟩ := Evidence.resume_ofPings hsegment htracks (hlength.trans hsize) hm hfit h
  refine ⟨e, ?_⟩
  rw [entry, if_pos (contains_countKeys.mpr hk)]
  exact Run.resume_bind_of_ok he _

/-- An entity of whose tracks one fails. -/
theorem resume_entry_of_fails [Geodesy] (hbox : r.box.IsValid) (hk : k ∈ r.tubeKeys)
    {asked : List Track} {f : Fault} (hasked : asked <+: r.tracksOf k)
    (h : r.scorer.Fails (.whole r.settings.routeDivisions) t.calls.length asked f) :
    Run.resume t (r.entry k) =
      (.error f, t.extend (r.callsOn asked) (Evidence.failureRecords f)) := by
  obtain ⟨hsegment, -, htracks, -⟩ := isSegmented hbox k
  rw [entry, if_pos (contains_countKeys.mpr hk)]
  exact Run.resume_bind_of_error
    (Evidence.resume_ofPings_of_fails hsegment htracks hasked h) _

variable {ks : List String}

/-- Entities whose tracks are all answered, one after the other. -/
theorem resume_entries [Geodesy] (hbox : r.box.IsValid) (hsize : r.box.size ≤ 2 ^ m) (hm : m < 1024)
    {xs : List Float}
    (hfit : r.scorer.GroupsFit (.whole r.settings.routeDivisions) t.calls.length
      ((r.seen ks).map r.tracksOf))
    (h : r.scorer.Answers (.whole r.settings.routeDivisions) t.calls.length
      ((r.seen ks).flatMap r.tracksOf) xs) :
    ∃ es, Run.resume t (ks.mapM r.entry) = (.ok es,
      t.extend (r.callsOn ((r.seen ks).flatMap r.tracksOf)) []) := by
  induction ks generalizing t xs with
  | nil =>
      exact ⟨[], Run.resume_mapM_nil t _⟩
  | cons k ks ih =>
      by_cases hk : k ∈ r.tubeKeys
      · rw [seen_cons_of_mem hk] at hfit h ⊢
        rw [List.map_cons, Scorer.GroupsFit] at hfit
        rw [List.flatMap_cons] at h ⊢
        obtain ⟨ys, zs, hys, hzs⟩ := h.of_append
        obtain ⟨hsums, hgroups⟩ := hfit ys hys
        obtain ⟨e, he⟩ := resume_entry hbox hsize hm hk hsums hys
        have hcalls := r.length_calls_extend t (r.tracksOf k)
        obtain ⟨es, hes⟩ := ih (hcalls ▸ hgroups) (hcalls ▸ hzs)
        refine ⟨(k, e) :: es, ?_⟩
        rw [List.mapM_cons, Run.resume_bind_of_ok he, Run.resume_bind_of_ok hes,
          Trace.extend_extend, callsOn_append]
        rfl
      · rw [seen_cons_of_not_mem hk] at hfit h ⊢
        obtain ⟨es, hes⟩ := ih hfit h
        refine ⟨(k, Evidence.nothing) :: es, ?_⟩
        rw [List.mapM_cons, Run.resume_bind_of_ok (resume_entry_of_not_mem hk),
          Run.resume_bind_of_ok hes]
        rfl

/-- Entities of whose tracks one fails, one after the other. -/
theorem resume_entries_of_fails [Geodesy] (hbox : r.box.IsValid) (hsize : r.box.size ≤ 2 ^ m)
    (hm : m < 1024) {asked : List Track} {f : Fault}
    (hfit : r.scorer.GroupsFit (.whole r.settings.routeDivisions) t.calls.length
      ((r.seen ks).map r.tracksOf))
    (hasked : asked <+: (r.seen ks).flatMap r.tracksOf)
    (h : r.scorer.Fails (.whole r.settings.routeDivisions) t.calls.length asked f) :
    Run.resume t (ks.mapM r.entry) =
      (.error f, t.extend (r.callsOn asked) (Evidence.failureRecords f)) := by
  induction ks generalizing t asked with
  | nil =>
      obtain rfl := List.prefix_nil.mp hasked
      cases h
  | cons k ks ih =>
      by_cases hk : k ∈ r.tubeKeys
      · rw [seen_cons_of_mem hk] at hfit hasked
        rw [List.map_cons, Scorer.GroupsFit] at hfit
        rw [List.flatMap_cons] at hasked
        rcases h.of_append hasked with hfirst | ⟨ys, asked', rfl, hlater, hys, hfails⟩
        · rw [List.mapM_cons, Run.resume_bind_of_error (resume_entry_of_fails hbox hk hfirst h)]
        · obtain ⟨hsums, hgroups⟩ := hfit ys hys
          obtain ⟨e, he⟩ := resume_entry hbox hsize hm hk hsums hys
          have hcalls := r.length_calls_extend t (r.tracksOf k)
          have hrest := ih (hcalls ▸ hgroups) hlater (hcalls ▸ hfails)
          rw [List.mapM_cons, Run.resume_bind_of_ok he, Run.resume_bind_of_error hrest,
            Trace.extend_extend, callsOn_append]
          rfl
      · rw [seen_cons_of_not_mem hk] at hfit hasked
        rw [List.mapM_cons, Run.resume_bind_of_ok (resume_entry_of_not_mem hk),
          Run.resume_bind_of_error (ih hfit hasked h)]

/-! ### The ranking -/

variable {extent : Extent} {shapes : List (Option Shape)} {divisions : Datum}
  {grid : Grid Float} {cells : List Cell}

theorem resume_warnIfEmpty (t : Trace) (grid : Grid Float) (cells : List Cell) :
    Run.resume t (warnIfEmpty grid cells) = (.ok (), t.extend [] (warnings grid cells)) := by
  rw [warnIfEmpty, warnings]
  by_cases hempty : cells.isEmpty = true
  · rw [if_pos hempty, if_pos hempty, Run.resume_log t (by decide)]
  · rw [if_neg hempty, if_neg hempty, Trace.extend_nil]
    rfl

/-- Up to the evidence a ranking only warns. -/
theorem start_rank [Geodesy] (hbox : r.box.IsValid)
    (hgrid : Grid.build extent (orConfigured divisions r.settings.gridDivisions) = .ok grid)
    (hcovered : grid.cellsCovered shapes = .ok cells) (hnodup : cells.Nodup) {j m : ℕ}
    (hsize : r.box.size ≤ 2 ^ j) (hcells : cells.length ≤ 2 ^ m)
    (hjm : 2 * (j + m + 1) + m + 5 < 1024) :
    ∃ standings : Catalog String (Evidence Float) → Rankings Float,
      Run.start (r.rank extent shapes divisions) = Run.resume ⟨[], warnings grid cells⟩ (do
        let evidence ← r.evidence
        Run.log .info (summary (standings evidence).size grid cells)
        return standings evidence) := by
  have hsurvey := survey_eq_ok.mpr
    ⟨hbox.finite, (rfl : Coverage.survey grid r.box.pings r.tube.pings cells = _)⟩
  obtain ⟨sp, hsp⟩ := Coverage.exists_spreads (α := Float) r.tube.pings fun k _ => by
    obtain ⟨-, -, d, -, -, -, hd⟩ := Coverage.exists_spread grid k hnodup hsize hcells hjm
    exact ⟨d, hd⟩
  refine ⟨(Coverage.survey grid r.box.pings r.tube.pings cells).standings sp, ?_⟩
  rw [Run.start, rank, Run.resume_bind_of_ok (Run.resume_of_eq_ok _ hgrid),
    Run.resume_bind_of_ok (Run.resume_of_eq_ok _ hcovered),
    Run.resume_bind_of_ok (resume_warnIfEmpty _ grid cells),
    Run.resume_bind_of_ok (Run.resume_of_eq_ok _ hsurvey),
    Run.resume_bind_of_ok (Run.resume_of_arithmetic _ hsp)]
  rfl

/-- A time that cannot be told ends a ranking before any call, and nothing is logged of it. -/
theorem start_rank_of_untold [Geodesy] (hbox : r.box.IsValid)
    (huntold : ∃ p ∈ r.box.pings, PingCollection.isTellable p = false)
    (hgrid : Grid.build extent (orConfigured divisions r.settings.gridDivisions) = .ok grid)
    (hcovered : grid.cellsCovered shapes = .ok cells) (hnodup : cells.Nodup) {j m : ℕ}
    (hsize : r.box.size ≤ 2 ^ j) (hcells : cells.length ≤ 2 ^ m)
    (hjm : 2 * (j + m + 1) + m + 5 < 1024) :
    Run.start (r.rank extent shapes divisions) =
      (.error .timeOutOfRange, ⟨[], warnings grid cells⟩) := by
  obtain ⟨standings, hstart⟩ := start_rank hbox hgrid hcovered hnodup hsize hcells hjm
  have hgroups : r.box.groups = .error .timeOutOfRange := by
    obtain ⟨p, hp, huntold⟩ := huntold
    rw [PingCollection.groups, if_neg]
    rw [List.all_eq_true]
    intro hall
    rw [hall p hp] at huntold
    cases huntold
  have hevidence : Run.resume ⟨[], warnings grid cells⟩ r.evidence =
      (.error .timeOutOfRange, ⟨[], warnings grid cells⟩) := by
    rw [evidence, hgroups]
    rfl
  rw [hstart, Run.resume_bind_of_error hevidence]

/-- **The calls of a ranking and its failures.** For pings whose times can be told, and for scores
whose sums do not overflow, a ranking asks its scorer about the tracks of the entities that are in
the box and in the tube, and about no others. If all are answered, it has a result, and the last
record tells so. If not, it fails with the fault of the first call that fails, makes no call after
it, and logs an error if the fault is of one of the kinds that are logged. -/
theorem rank_calls [Geodesy] (r : Route) {extent : Extent} {shapes : List (Option Shape)}
    {divisions : Datum} {grid : Grid Float} {tube : Finset Cell} (hbox : r.box.IsValid)
    (htellable : ∀ p ∈ r.box.pings, PingCollection.isTellable p = true)
    (hgrid : Grid.build extent (orConfigured divisions r.settings.gridDivisions) = .ok grid)
    (htube : ∀ c, c ∈ tube ↔ grid.IsTubeCell shapes c)
    (hsize : r.box.size < 2 ^ 63) (hcells : tube.card < 2 ^ 63)
    (hfit : r.scorer.GroupsFit (.whole r.settings.routeDivisions) 0
      (r.scoredKeys.map r.tracksOf)) :
    ∃ cells, grid.cellsCovered shapes = .ok cells ∧ (∀ k ∈ r.scoredKeys, r.IsSegmented k) ∧
      (∀ xs, r.scorer.Answers (.whole r.settings.routeDivisions) 0 r.plan xs →
        ∃ m, Run.start (r.rank extent shapes divisions) = (.ok m,
          ⟨r.callsOn r.plan, warnings grid cells ++ [⟨.info, summary m.size grid cells⟩]⟩)) ∧
      (∀ asked f, asked <+: r.plan →
        r.scorer.Fails (.whole r.settings.routeDivisions) 0 asked f →
          Run.start (r.rank extent shapes divisions) = (.error f,
            ⟨r.callsOn asked, warnings grid cells ++ Evidence.failureRecords f⟩)) ∧
      ((∃ xs, r.scorer.Answers (.whole r.settings.routeDivisions) 0 r.plan xs) ∨
        ∃ asked f, asked <+: r.plan ∧
          r.scorer.Fails (.whole r.settings.routeDivisions) 0 asked f) := by
  obtain ⟨cells, hcovered, hnodup, hmem⟩ := Grid.exists_cellsCovered hgrid shapes
  have hlength : cells.length ≤ 2 ^ 63 := by
    rw [← List.toFinset_card_of_nodup hnodup]
    refine (Finset.card_le_card fun c hc => ?_).trans hcells.le
    exact (htube c).mpr ((hmem c).mp (List.mem_toFinset.mp hc))
  obtain ⟨standings, hstart⟩ := start_rank hbox hgrid hcovered hnodup hsize.le hlength (by omega)
  rw [hstart, Run.resume_bind, resume_evidence_eq _ htellable]
  refine ⟨cells, hcovered, fun k _ => isSegmented hbox k, fun xs hxs => ?_,
    fun asked f hasked hfails => ?_, Scorer.answers_or_fails 0 r.plan⟩
  · obtain ⟨es, hes⟩ := resume_entries (t := ⟨[], warnings grid cells⟩) hbox hsize.le (by omega)
      hfit hxs
    refine ⟨standings ⟨es⟩, ?_⟩
    rw [Run.resume_bind_of_ok hes]
    refine (Run.resume_bind_of_ok (Run.resume_log _ (by decide) _) _).trans ?_
    rw [Trace.extend_extend, List.append_nil, List.nil_append]
    rfl
  · rw [Run.resume_bind_of_error (resume_entries_of_fails (t := ⟨[], warnings grid cells⟩) hbox
      hsize.le (by omega) hfit hasked hfails)]
    rfl

/-! ### Samples -/

/-- Three entities that were seen in the tube, each at one place, and a scorer that answers some
calls and no others. -/
def trio (answered : ℕ) : Route where
  scorer := Scorer.failing answered .value "no"
  box := .ofList
    [samplePing, ⟨1, "b", 0.5, 0.5, some ⟨5, none⟩⟩, ⟨2, "c", 0.5, 0.5, some ⟨9, none⟩⟩]
  tube := .ofList [⟨0, "c", 0.5, 0.5, none⟩, samplePing, ⟨1, "b", 0.5, 0.5, none⟩]
  settings := Settings.preset

/-- A timed ping that is the only one of its entity is a tracklet, and its track has no legs. -/
theorem tracksOf_of_single [Geodesy] {r : Route} {k : String} {p : Ping} (h : r.pingsOf k = [p])
    (htimed : p.isTimed = true) : r.tracksOf k = [⟨[]⟩] := by
  rw [tracksOf, tracklets, h, Tracklet.segment_singleton _ htimed]
  rfl

/-- The entities of the sample have one track each. -/
theorem trio_tracks (answered : ℕ) :
    (trio answered).scoredKeys.map (trio answered).tracksOf = [[⟨[]⟩], [⟨[]⟩], [⟨[]⟩]] := by
  have hkeys : (trio answered).scoredKeys = ["a", "b", "c"] := by
    have hsame : (trio answered).scoredKeys = (trio 0).scoredKeys := rfl
    rw [hsame]
    decide +kernel
  have hpings : ∀ k ∈ ["a", "b", "c"], ∃ p ∈ (trio answered).box.pings,
      (trio answered).pingsOf k = [p] ∧ p.isTimed = true := by
    have hsame : (trio answered).box = (trio 0).box := rfl
    simp only [pingsOf, hsame]
    decide +kernel
  have htracks : ∀ k ∈ ["a", "b", "c"], (trio answered).tracksOf k = [⟨[]⟩] := by
    intro k hk
    obtain ⟨p, -, hp, htimed⟩ := hpings k hk
    exact tracksOf_of_single hp htimed
  rw [hkeys, List.map_congr_left htracks]
  rfl

/-- A scorer that gives one for a number of calls and fails afterwards. -/
theorem answer_failing (answered n : ℕ) (kind : Kind) (text : String) (divisions : Datum)
    (track : Track) : (Scorer.failing answered kind text).answer divisions n track =
      if n < answered then .ok 1 else .error (.raised kind text) := by
  rw [Scorer.answer, Scorer.failing]
  split_ifs <;> rfl

/-- Sums of one score fit, if no answer is another number than one. -/
theorem groupsFit_ones {scorer : Scorer} {divisions : Datum}
    (h : ∀ n track x, scorer.answer divisions n track = .ok x → x = 1) (n : ℕ)
    (tracks : List Track) : scorer.GroupsFit divisions n (tracks.map ([·])) := by
  induction tracks generalizing n with
  | nil => trivial
  | cons track tracks ih =>
      intro xs hxs
      cases hxs with
      | cons hfirst hrest =>
          cases hrest
          obtain rfl := h _ _ _ hfirst
          exact ⟨sumsFit_one, ih _⟩

/-- The sums of the sample fit. -/
theorem trio_fits (answered : ℕ) : (trio answered).scorer.GroupsFit (.whole (100 : ℕ)) 0
    ((trio answered).scoredKeys.map (trio answered).tracksOf) := by
  rw [trio_tracks]
  refine groupsFit_ones (fun n track x hx => ?_) 0 [⟨[]⟩, ⟨[]⟩, ⟨[]⟩]
  rw [trio, answer_failing] at hx
  split_ifs at hx
  exact (Except.ok.inj hx).symm

theorem rank_calls_sample :
    let call : ScorerCall := ⟨⟨[]⟩, .whole (100 : ℕ)⟩
    ∃ (grid : Grid Float) (cells : List Cell) (m : Rankings Float),
      Grid.build (.bounds [0, 0, 2, 2]) (.whole (2 : ℕ)) = .ok grid ∧
      grid.cellsCovered [some (Shape.box 0 0 1 1)] = .ok cells ∧
      Run.start ((trio 3).rank (.bounds [0, 0, 2, 2]) [some (Shape.box 0 0 1 1)]
        (.whole (2 : ℕ))) = (.ok m, ⟨[call, call, call],
          warnings grid cells ++ [⟨.info, summary m.size grid cells⟩]⟩) ∧
      Run.start ((trio 1).rank (.bounds [0, 0, 2, 2]) [some (Shape.box 0 0 1 1)]
        (.whole (2 : ℕ))) = (.error (.raised .value "no"), ⟨[call, call],
          warnings grid cells ++
            [⟨.error, "Route motion scoring failed: ValueError: no"⟩]⟩) := by
  intro call
  obtain ⟨grid, hgrid, hsize⟩ := exists_sampleGrid
  obtain ⟨cells, hcells, -, hmem⟩ := Grid.exists_cellsCovered hgrid [some (Shape.box 0 0 1 1)]
  have htube : ∀ c, c ∈ cells.toFinset ↔ _ := fun c => List.mem_toFinset.trans (hmem c)
  have hcard := Grid.card_le_size fun c hc => (htube c).mp hc
  have hbox : (trio 0).box.IsValid := by
    dsimp only [trio]
    exact PingCollection.isValid_ofList _
  have hbuild : Grid.build (.bounds [0, 0, 2, 2])
      (orConfigured (.whole (2 : ℕ)) (trio 0).settings.gridDivisions) = .ok grid := hgrid
  have hplan : ∀ answered, (trio answered).plan = [⟨[]⟩, ⟨[]⟩, ⟨[]⟩] := by
    intro answered
    rw [plan, List.flatMap_def, trio_tracks]
    rfl
  have hfew : (trio 0).box.size < 2 ^ 63 := by decide +kernel
  have htellable : ∀ p ∈ (trio 0).box.pings, PingCollection.isTellable p = true := by
    decide +kernel
  have hcalls := fun answered => rank_calls (trio answered) hbox htellable hbuild htube hfew
    (hcard.trans_lt (by rw [hsize]; decide)) (trio_fits answered)
  obtain ⟨cells', hcells', -, hranked, -, -⟩ := hcalls 3
  obtain ⟨cells'', hcells'', -, -, hfailed, -⟩ := hcalls 1
  obtain rfl := Except.ok.inj (hcells.symm.trans hcells')
  obtain rfl := Except.ok.inj (hcells.symm.trans hcells'')
  rw [hplan] at hranked hfailed
  obtain ⟨m, hm⟩ := hranked [1, 1, 1] (.cons rfl (.cons rfl (.cons rfl (.nil 3))))
  refine ⟨grid, cells, m, hgrid, hcells, hm, ?_⟩
  exact hfailed [⟨[]⟩, ⟨[]⟩] _ ⟨[⟨[]⟩], rfl⟩ (.later rfl (.here rfl))

/-- The entity whose time cannot be told, seen in the tube too. -/
def untoldSeen : Route := { untold with tube := untold.box }

/-- The scorer is not called about an entity whose time cannot be told, though it would answer, and
the ranking fails. -/
theorem rank_calls_untold : untoldSeen.box.IsValid ∧
    untoldSeen.scorer.Answers (.whole untoldSeen.settings.routeDivisions) 0 untoldSeen.plan [1] ∧
    untoldSeen.scorer.GroupsFit (.whole untoldSeen.settings.routeDivisions) 0
      (untoldSeen.scoredKeys.map untoldSeen.tracksOf) ∧
    ∃ grid cells, Grid.build (.bounds [0, 0, 2, 2]) (.whole (2 : ℕ)) = .ok grid ∧
      grid.cellsCovered [some (Shape.box 0 0 1 1)] = .ok cells ∧
      Run.start (untoldSeen.rank (.bounds [0, 0, 2, 2]) [some (Shape.box 0 0 1 1)]
        (.whole (2 : ℕ))) = (.error .timeOutOfRange, ⟨[], warnings grid cells⟩) := by
  have hbox : untoldSeen.box.IsValid := by
    dsimp only [untoldSeen, untold]
    exact PingCollection.isValid_ofList _
  obtain ⟨grid, cells, hgrid, hcovered, hnodup, hlength⟩ := exists_sampleTube
  have hkeys : untoldSeen.scoredKeys = ["a"] := by decide +kernel
  have hpings : untoldSeen.pingsOf "a" =
      [⟨0, "a", 0.5, 0.5, some ⟨-18000000000, some (.fixed 0)⟩⟩] := by decide +kernel
  have htracks : untoldSeen.tracksOf "a" = [⟨[]⟩] := tracksOf_of_single hpings rfl
  refine ⟨hbox, ?_, ?_, grid, cells, hgrid, hcovered, ?_⟩
  · rw [plan, hkeys, List.flatMap_singleton, htracks]
    exact .cons rfl (.nil 1)
  · rw [hkeys, List.map_singleton, htracks]
    refine groupsFit_ones (fun _ _ x hx => ?_) 0 [⟨[]⟩]
    have hone : Except.ok (1 : Float) = .ok x := hx
    exact (Except.ok.inj hone).symm
  · exact start_rank_of_untold hbox (by decide +kernel) hgrid hcovered hnodup (j := 1) (m := 0)
      (by decide +kernel) hlength.le (by decide)

end Route

end Corridor
