import Corridor.Proofs.Approved

/-!
# Tracks from Legs

A track from pings goes through them in order of time. A track from legs asks only that each leg
ends at the very ping at which the next one starts, and keeps them in the order given. Its legs are
then the given ones, so it ascends in time exactly if every given leg does: the check at the joints
does not look at the two ends of a leg.

## Main results

* `Track.contiguous_iff_joined`: what the check asks.
* `Track.ofLegs_of_joined`: the legs of a track are the ones it is made of.
* `Track.ascends_iff`: a track ascends exactly if its legs do.
* `Track.ofLegs_ascends_iff`: the tracks of legs, and which of them the track from pings rebuilds.
-/

namespace Corridor

/-- The leg does not lead back in time. -/
def Leg.IsForward (l : Leg) : Prop := l.later.isBefore l.earlier = false

instance (l : Leg) : Decidable l.IsForward := inferInstanceAs (Decidable (_ = _))

namespace Track

/-- No stop is before the one in front of it. -/
def Ascends (t : Track) : Prop := t.stops.IsChain fun p q => q.isBefore p = false

/-! ### The check at the joints -/

/-- Each leg ends at the ping at which the next one starts. -/
def Joined (ls : List Leg) : Prop := ls.IsChain fun a b => a.later = b.earlier

theorem contiguous_iff_joined (ls : List Leg) : contiguous ls = true ↔ Joined ls := by
  induction ls with
  | nil => simp [contiguous, Joined]
  | cons a ls ih =>
      cases ls with
      | nil => simp [contiguous, Joined]
      | cons b ls =>
          rw [contiguous, Bool.and_eq_true, decide_eq_true_eq, ih, Joined, Joined,
            List.isChain_cons_cons]

/-- The legs between the start of the first leg and the ends of all are the legs themselves. -/
theorem legs_of_joined {l : Leg} {ls : List Leg} (h : Joined (l :: ls)) :
    legs ⟨l.earlier :: (l :: ls).map Leg.later⟩ = l :: ls := by
  induction ls generalizing l with
  | nil => rfl
  | cons m ls ih =>
      obtain ⟨hjoint, hrest⟩ := List.isChain_cons_cons.mp h
      have hlegs := ih hrest
      rw [← hjoint] at hlegs
      rw [List.map_cons, List.map_cons, legs_cons_cons]
      exact congrArg (l :: ·) hlegs

/-- **The legs of a track are the ones it is made of.** -/
theorem ofLegs_of_joined {ls : List Leg} (h : Joined ls) :
    ∃ t, ofLegs ls = .ok t ∧ t.legs = ls ∧ t.stops.length ≠ 1 ∧
      ∀ p ∈ t.stops, ∃ l ∈ ls, p = l.earlier ∨ p = l.later := by
  refine ⟨_, if_pos ((contiguous_iff_joined ls).mpr h), ?_⟩
  cases ls with
  | nil => simp [legs]
  | cons l ls =>
      refine ⟨legs_of_joined h, by simp, fun p hp => ?_⟩
      rcases List.mem_cons.mp hp with rfl | hlater
      · exact ⟨l, List.mem_cons_self, .inl rfl⟩
      · obtain ⟨m, hm, rfl⟩ := List.mem_map.mp hlater
        exact ⟨m, hm, .inr rfl⟩

/-! ### Order of time -/

/-- **A track ascends exactly if its legs do.** -/
theorem ascends_iff (t : Track) : t.Ascends ↔ ∀ l ∈ t.legs, l.IsForward := by
  obtain ⟨ps⟩ := t
  refine ⟨fun h => forall_mem_legs (P := Leg.IsForward) h, fun h => ?_⟩
  rw [Ascends]
  induction ps with
  | nil => exact List.isChain_nil
  | cons p ps ih =>
      cases ps with
      | nil => exact List.isChain_singleton p
      | cons q ps =>
          rw [legs_cons_cons, List.forall_mem_cons] at h
          exact List.isChain_cons_cons.mpr ⟨h.1, ih h.2⟩

/-- Where comparing is transitive, no stop of a track that ascends is before any that precedes
it. -/
theorem ascends_iff_pairwise {t : Track} (h : Ping.Consistent t.stops) :
    t.Ascends ↔ t.stops.Pairwise fun p q => q.isBefore p = false :=
  ⟨Sorting.pairwise_of_isChain (List.Subset.refl _) h, List.Pairwise.isChain⟩

/-- The track from timed pings that are not one alone has all of them, in order of time. -/
theorem ofPings_of_timedAs {zoned : Bool} {ps : List Ping} (htimed : ∀ p ∈ ps, p.TimedAs zoned)
    (hne : ps.length ≠ 1) : ofPings ps = .ok ⟨Sorting.sort Ping.isBefore ps⟩ := by
  have hperm : (Sorting.sort Ping.isBefore ps).Perm ps := Sorting.sort_perm ps
  have hthrough : through (Sorting.sort Ping.isBefore ps) = ⟨Sorting.sort Ping.isBefore ps⟩ := by
    rw [through]
    split_ifs with hlength
    · rw [hperm.length_eq] at hlength
      obtain rfl := List.length_eq_zero_iff.mp (by omega : ps.length = 0)
      rw [hperm.eq_nil]
    · rfl
  rw [ofPings, Ping.inOrder_of_timedAs htimed, ← hthrough]
  rfl

/-- The track through the stops of a track in order of time is the same exactly if the track
ascends. -/
theorem legs_sort_eq_iff_ascends (t : Track) :
    legs ⟨Sorting.sort Ping.isBefore t.stops⟩ = t.legs ↔ t.Ascends := by
  constructor
  · intro hlegs
    rw [ascends_iff, ← hlegs, ← ascends_iff]
    exact (Ping.isSorted_sort t.stops).neighbours
  · intro hascends
    have hsame : Sorting.sort Ping.isBefore t.stops = t.stops :=
      Sorting.sort_of_isChain (hascends.imp fun _ _ => Sorting.notAfter_eq_true_iff.mpr)
    rw [hsame]

/-- **Tracks ascend exactly if their legs do.** Of timed legs, those that do not join up make no
track. Those that do make a track whose legs they are; it ascends, and the track from its pings has
the same legs, exactly if none of the legs leads back in time. -/
theorem ofLegs_ascends_iff {zoned : Bool} {ls : List Leg}
    (htimed : ∀ l ∈ ls, l.earlier.TimedAs zoned ∧ l.later.TimedAs zoned) :
    (¬ Joined ls ∧ ofLegs ls = .error .legsNotContiguous) ∨
    (Joined ls ∧ ∃ t sorted, ofLegs ls = .ok t ∧ t.legs = ls ∧
      ofPings t.stops = .ok sorted ∧ Ping.IsSorted t.stops sorted.stops ∧
      (t.Ascends ↔ ∀ l ∈ ls, l.IsForward) ∧ (sorted.legs = ls ↔ ∀ l ∈ ls, l.IsForward) ∧
      (Ping.Consistent t.stops →
        (t.Ascends ↔ t.stops.Pairwise fun p q => q.isBefore p = false))) := by
  by_cases hjoined : Joined ls
  · obtain ⟨t, ht, hlegs, hlength, hstops⟩ := ofLegs_of_joined hjoined
    have hstopsTimed : ∀ p ∈ t.stops, p.TimedAs zoned := by
      intro p hp
      obtain ⟨l, hl, rfl | rfl⟩ := hstops p hp
      · exact (htimed l hl).1
      · exact (htimed l hl).2
    have hforward := ascends_iff t
    have hsame := legs_sort_eq_iff_ascends t
    rw [hlegs] at hforward hsame
    exact .inr ⟨hjoined, t, _, ht, hlegs, ofPings_of_timedAs hstopsTimed hlength,
      Ping.isSorted_sort t.stops, hforward, hsame.trans hforward, ascends_iff_pairwise⟩
  · exact .inl ⟨hjoined, if_neg (mt (contiguous_iff_joined ls).mp hjoined)⟩

/-! ### A leg that leads back -/

/-- A ping of an entity at the equator, so many microseconds after the start of the calendar. -/
def pingAt (serial : Nat) (micros : Int) : Ping := ⟨serial, "a", 0, 0, some ⟨micros, none⟩⟩

theorem timedAs_pingAt (serial : Nat) (micros : Int) : (pingAt serial micros).TimedAs false :=
  ⟨⟨micros, none⟩, rfl, rfl⟩

theorem ofLegs_ascends_iff_there_and_back :
    let there : Leg := ⟨pingAt 0 0, pingAt 1 10⟩
    let back : Leg := ⟨pingAt 1 10, pingAt 2 5⟩
    (∀ l ∈ [there, back], l.earlier.TimedAs false ∧ l.later.TimedAs false) ∧
    ∃ t sorted, ofLegs [there, back] = .ok t ∧ t.legs = [there, back] ∧
      ofPings t.stops = .ok sorted ∧ ¬ t.Ascends ∧ sorted.legs ≠ [there, back] := by
  intro there back
  have htimed : ∀ l ∈ [there, back], l.earlier.TimedAs false ∧ l.later.TimedAs false := by
    simp [there, back, timedAs_pingAt]
  have hjoined : Joined [there, back] := by simp [Joined, there, back]
  have hback : ¬ ∀ l ∈ [there, back], l.IsForward := by decide
  refine ⟨htimed, ?_⟩
  rcases ofLegs_ascends_iff htimed with
    ⟨hnot, -⟩ | ⟨-, t, sorted, ht, hlegs, hsorted, -, hascends, hsame, -⟩
  · exact absurd hjoined hnot
  · exact ⟨t, sorted, ht, hlegs, hsorted, mt hascends.mp hback, mt hsame.mp hback⟩

/-- A leg that leads back in time makes a track, which does not ascend. -/
theorem ofLegs_back :
    let late := pingAt 0 10
    let soon := pingAt 1 0
    late.TimedAs false ∧ soon.TimedAs false ∧ ofLegs [⟨late, soon⟩] = .ok ⟨[late, soon]⟩ ∧
      ¬ Ascends ⟨[late, soon]⟩ ∧ ofPings [late, soon] = .ok ⟨[soon, late]⟩ ∧
      legs ⟨[soon, late]⟩ ≠ [⟨late, soon⟩] := by
  intro late soon
  have hback : ¬ (⟨late, soon⟩ : Leg).IsForward := by decide
  have hsort : Sorting.sort Ping.isBefore [late, soon] = [soon, late] := by cbv
  refine ⟨timedAs_pingAt 0 10, timedAs_pingAt 1 0, rfl, ?_, ?_, ?_⟩
  · rw [ascends_iff]
    simpa [legs] using hback
  · have htimed : ∀ p ∈ [late, soon], p.TimedAs false := by simp [late, soon, timedAs_pingAt]
    rw [ofPings_of_timedAs htimed (by decide), hsort]
  · simp [legs, late, soon, pingAt]

end Track

end Corridor
