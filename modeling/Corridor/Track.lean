import Corridor.Ping
import Corridor.Stats

/-!
# Tracks

A track is a chain of pings with a leg from each to the next. It can be built from pings, which
are put in order of time, or from legs, which have to share a ping where they meet; in the
second case the order is that of the legs, whatever their times. One ping alone makes no leg,
and its track is empty.
-/

namespace Corridor

/-- A chain of pings. -/
structure Track where
  /-- The pings in order: none, or at least two. -/
  stops : List Ping
deriving DecidableEq, Inhabited

/-- The greatest, least and mean speed of a track, and the deviation from the mean. -/
structure SpeedStatistics where
  max : Float
  min : Float
  mean : Float
  deviation : Float
deriving Inhabited

namespace Track

/-- The track through the given pings in the given order. -/
def through (ps : List Ping) : Track := if ps.length ≤ 1 then ⟨[]⟩ else ⟨ps⟩

/-- The track through the given pings in order of time. -/
def ofPings (ps : List Ping) : Except Fault Track := do
  return through (← Ping.inOrder ps)

/-- Whether each leg ends at the very ping at which the next one starts. -/
def contiguous : List Leg → Bool
  | a :: b :: ls => a.later = b.earlier && contiguous (b :: ls)
  | _ => true

/-- The track of the given legs. -/
def ofLegs (ls : List Leg) : Except Fault Track :=
  if contiguous ls then .ok ⟨(ls.take 1).map Leg.earlier ++ ls.map Leg.later⟩
  else .error .legsNotContiguous

/-- The legs of a track. -/
def legs (t : Track) : List Leg := List.zipWith Leg.mk t.stops t.stops.tail

/-- How many legs a track has. -/
def length (t : Track) : Nat := t.legs.length

variable [Geodesy]

/-- Length in metres. -/
def distance (t : Track) : Except Fault Float := Total.ofList (t.legs.map Leg.distance)

/-- The speeds of the legs. -/
def speeds (t : Track) : Except Fault (List Float) := t.legs.mapM Leg.speed

/-- The statistics of the speeds, all zero for no legs. -/
def speedStatistics (t : Track) : Except Fault SpeedStatistics := do
  match ← t.speeds with
  | [] => return ⟨0, 0, 0, 0⟩
  | s :: ss =>
      let mean : Float ← Stats.mean (s :: ss)
      return ⟨Stats.greatest s ss, Stats.least s ss, mean, ← Stats.deviationFrom mean (s :: ss)⟩

end Track

end Corridor
