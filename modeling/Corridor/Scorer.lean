import Corridor.Datum.Number
import Corridor.Evidence
import Corridor.Tracklet
import Corridor.Trace

/-!
# Scorers

A scorer tells how strongly a track supports travel along the route, which it divides into a
given number of parts. Its answer is a value that stands for a double, or a fault of any kind;
it may depend on how often the scorer was called before. Every call is noted in the trace.
-/

namespace Corridor

/-- Scores a track, given the number of the call, counted from zero, and the divisions of the
route. -/
abbrev Scorer := Nat → Track → Datum → Except Fault Datum

namespace Scorer

/-- Scores a track by its number of legs, as a double. -/
def legs : Scorer := fun _ t _ => .ok (.real (Float.ofNat t.length))

/-- Scores a track by its number of pings. -/
def pings : Scorer := fun _ t _ => .ok (.whole t.stops.length)

/-- Scores a track by its length. -/
def distance [Geodesy] : Scorer := fun _ t _ => do return .real (← t.distance)

/-- Scores a track by its mean speed. -/
def meanSpeed [Geodesy] : Scorer := fun _ t _ => do return .real (← t.speedStatistics).mean

/-- Scores a track by its number of legs times the divisions. -/
def divisions : Scorer := fun _ t d => d.times t.length

/-- Gives the listed values in turn, over and over. -/
def listed (values : List Datum) : Scorer := fun call _ _ =>
  match values[call % values.length]? with
  | some d => .ok d
  | none => .error (.arithmetic .zeroDivisor)

/-- Gives one for a number of calls and fails afterwards. -/
def failing (after : Nat) (kind : Kind) (text : String) : Scorer := fun call _ _ =>
  if call < after then .ok (.real 1) else .error (.raised kind text)

end Scorer

namespace Evidence

/-- The kinds of faults in scoring that are logged. -/
def loggedKinds : List Kind := [.arithmetic, .value, .type]

/-- The score of a tracklet. -/
def scoreTracklet (scorer : Scorer) (divisions : Datum) (tracklet : List Ping) : Run Float :=
  Run.guarded loggedKinds "Route motion scoring failed" .error do
    let track ← Track.ofPings tracklet
    let call ← Run.noteCall ⟨track, divisions⟩
    let score ← scorer call track divisions
    score.toFloat

/-- The evidence of motion in the pings of one entity. -/
def ofPings [Geodesy] (scorer : Scorer) (limits : MotionLimits) (divisions : Datum)
    (ps : List Ping) : Run (Evidence Float) := do
  let tracklets ← Tracklet.segment limits ps
  let scores ← tracklets.mapM (scoreTracklet scorer divisions)
  summarize scores

end Evidence

end Corridor
