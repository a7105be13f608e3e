import Corridor.Collection
import Corridor.Listing
import Corridor.Scorer
import Corridor.Settings.Basic
import Corridor.Survey

/-!
# Rankings

A ranking takes the pings in the box around a route and those in the tube along it, counts them
over a grid, and weighs the motion of the entities that were seen in both. Entities that were
never seen in the tube have no evidence and are not scored.
-/

namespace Corridor

/-- One route with its scorer, the pings around it, and the settings of the run. -/
structure Route where
  scorer : Scorer
  box : PingCollection
  tube : PingCollection
  settings : Settings

namespace Route

/-- A value, or what the settings say if it is null. -/
def orConfigured (given : Datum) (configured : Nat) : Datum :=
  match given with
  | .null => .whole configured
  | d => d

/-- The evidence of motion in the pings of one entity. -/
def evidenceFor [Geodesy] (r : Route) (divisions : Datum) (ps : List Ping) : Run (Evidence Float) :=
  Evidence.ofPings r.scorer r.settings.motionLimits
    (orConfigured divisions r.settings.routeDivisions) ps

/-- The evidence of motion of every entity in the box, in order of first appearance. -/
def evidence [Geodesy] (r : Route) : Run (Catalog String (Evidence Float)) := do
  let tubeKeys := r.tube.countKeys
  let groups ← r.box.groups
  let entries ← groups.entries.mapM fun e => do
    if tubeKeys.contains e.1 then return (e.1, ← r.evidenceFor .null e.2)
    else return (e.1, Evidence.nothing)
  return ⟨entries⟩

/-- The counts over a grid, given the cells of the tube. -/
def survey (r : Route) (grid : Grid Float) (tube : List Cell) : Except Fault Survey := do
  return ⟨r.tube.countKeys, r.box.countKeys, ← r.box.gridCounts grid, tube, grid.divisions⟩

/-- Logs that no cell belongs to the tube, if so. -/
def warnIfEmpty (grid : Grid Float) (tube : List Cell) : Run Unit :=
  if tube.isEmpty then
    Run.log .warning
      ("No grid cell centre intersects the route buffer (" ++ grid.display ++ ")")
  else pure ()

/-- What is logged of a finished ranking. -/
def summary (entities : Nat) (grid : Grid Float) (tube : List Cell) : String :=
  "Ranked " ++ toString entities ++ " entities on a " ++ toString grid.divisions ++ "x" ++
    toString grid.divisions ++ " grid with " ++ toString tube.length ++ " tube cells"

/-- The standings of all entities in the box and the tube. -/
def rank [Geodesy] (r : Route) (extent : Extent) (shapes : List (Option Shape))
    (divisions : Datum) : Run (Rankings Float) := do
  let grid ← Grid.build extent (orConfigured divisions r.settings.gridDivisions)
  let tube ← grid.cellsCovered shapes
  warnIfEmpty grid tube
  let survey ← r.survey grid tube
  let spreads : Catalog String Float ← survey.spreads
  let evidence ← r.evidence
  let rankings := survey.standings spreads evidence
  Run.log .info (summary rankings.size grid tube)
  return rankings

end Route

namespace Listing

/-- The page of a ranking that the settings ask for. -/
def pageBySettings (m : Rankings Float) (s : Settings) : Except Fault (List String) := do
  return page s.skip (some s.maxResults) (← sort m s.sortField)

end Listing

end Corridor
