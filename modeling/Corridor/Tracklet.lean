import Corridor.Number.Quantity
import Corridor.Partition
import Corridor.Track

/-!
# Tracklets

The timed pings of one entity, in order of time, fall into tracklets: runs in which every ping
continues the motion of the pings before it. It does so if the time since the last ping, the
speed from there and the rate of turn against the leg before stay within limits.
-/

namespace Corridor

/-- Bounds of plausible motion: seconds between pings, metres per second and degrees per
second. -/
structure MotionLimits where
  gap : Quantity
  speed : Quantity
  turnRate : Quantity
deriving Inhabited

namespace Motion

variable [Geodesy]

/-- The change of heading from one leg to the next, signed and in degrees; above 180 degrees it
is taken less 180. -/
def headingChange (before after : Leg) : Float :=
  let change := after.heading - before.heading
  if 180 < change then change - 180 else change

/-- The change of heading per second of both legs. -/
def turnRate (before after : Leg) : Except Fault Float := do
  let change := headingChange before after
  let seconds := (← after.duration) + (← before.duration)
  if seconds == 0 then .error (.arithmetic .zeroDivisor)
  else return change / seconds

/-- Whether a leg takes less than the allowed time at a speed that is positive and allowed. -/
def isPlausible (limits : MotionLimits) (leg : Leg) : Except Fault Bool := do
  if Quantity.isAtMost (← leg.duration) limits.gap then return false
  let speed ← leg.speed
  return 0 < speed && Quantity.isAbove speed limits.speed

/-- Whether a ping continues the motion of a group of pings. -/
def continues (limits : MotionLimits) (group : List Ping) (p : Ping) : Except Fault Bool := do
  match group.reverse with
  | [] => return true
  | last :: earlier =>
      if !(← isPlausible limits ⟨last, p⟩) then return false
      match earlier with
      | [] => return true
      | previous :: _ =>
          return Quantity.isAbove (← turnRate ⟨previous, last⟩ ⟨last, p⟩) limits.turnRate

end Motion

namespace Tracklet

/-- The tracklets of the timed pings, in order of time. -/
def segment [Geodesy] (limits : MotionLimits) (ps : List Ping) :
    Except Fault (List (List Ping)) := do
  Partition.greedy (Motion.continues limits) (← Ping.inOrder (ps.filter Ping.isTimed))

end Tracklet

end Corridor
