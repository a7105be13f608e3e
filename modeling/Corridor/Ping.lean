import Corridor.Geodesic.Inverse
import Corridor.Sorting
import Corridor.Timestamp

/-!
# Pings and Legs

A ping is one observation of an entity. A leg is the way between two pings; its length and
heading are those of the geodesic, and its duration tells no direction in time.
-/

namespace Corridor

/-- One observation of an entity. -/
structure Ping where
  /-- The place of the observation in its source, which tells equal observations apart. -/
  serial : Nat
  key : String
  lon : Float
  lat : Float
  /-- The time of the observation, where its source had one. -/
  time? : Option Timestamp
deriving DecidableEq, Inhabited

namespace Ping

/-- Where the observation was made. -/
def position (p : Ping) : Position := ⟨p.lon, p.lat⟩

/-- Whether the time of the observation is known. -/
def isTimed (p : Ping) : Bool := p.time?.isSome

/-- Whether any two of the pings can be put in order of time. -/
def comparable (ps : List Ping) : Bool :=
  match ps with
  | [] | [_] => true
  | ps => ps.all (fun p => match p.time? with
      | some t => t.isZoned
      | none => false) ||
    ps.all fun p => match p.time? with
      | some t => !t.isZoned
      | none => false

/-- Microseconds from the time of one ping to that of another; none if either is unknown. -/
def microsTo (p q : Ping) : Int := match p.time?, q.time? with
  | some s, some t => s.microsTo t
  | _, _ => 0

/-- Whether the time of one ping comes before that of another. -/
def isBefore (p q : Ping) : Bool := 0 < p.microsTo q

/-- The pings in order of time, those of one time in the order given. -/
def inOrder (ps : List Ping) : Except Fault (List Ping) :=
  if comparable ps then .ok (Sorting.sort isBefore ps) else .error .timesNotComparable

end Ping

/-- The way between two pings, earlier first. -/
structure Leg where
  earlier : Ping
  later : Ping
deriving DecidableEq, Inhabited

namespace Leg

variable [Geodesy]

/-- The geodesic between the two pings. -/
def course (l : Leg) : Geodesic.Course := Geodesy.course l.earlier.position l.later.position

/-- Length in metres. -/
def distance (l : Leg) : Float := l.course.distance

/-- Direction at the earlier ping in degrees, clockwise from north. -/
def heading (l : Leg) : Float := l.course.heading

/-- Seconds between the two pings, whichever comes first. -/
def duration (l : Leg) : Except Fault Float :=
  match l.earlier.time?, l.later.time? with
  | some s, some t => s.secondsApart t
  | _, _ => .error .timesNotComparable

/-- Metres per second; infinite where no time passes. -/
def speed (l : Leg) : Except Fault Float := do
  let seconds ← l.duration
  if seconds == 0 then return Double.infinity
  return l.distance / seconds

end Leg

end Corridor
