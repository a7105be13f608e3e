import Corridor.Catalog
import Corridor.Evidence
import Corridor.Fault

/-!
# Standings

The standing of an entity in one ranking: how many of its observations lie in the tube around
the route and in the box around that, how many grid cells of both it touches, how its counts
spread over the cells of the tube, and its evidence of motion. The standings that two parts of
the observations give on the same grid merge into one.
-/

namespace Corridor

/-- What one ranking knows of an entity. -/
structure Standing (α : Type) where
  tubeCount : Int
  boxCount : Int
  /-- Cells of the grid in which the entity was observed. -/
  boxCells : Int
  /-- Cells of the tube in which the entity was observed. -/
  tubeCells : Int
  /-- The deviation of the counts per cell over all cells of the tube. -/
  spread : α
  evidence : Evidence α
  /-- Divisions of the grid along each side. -/
  divisions : Int
  /-- How many cells of the grid belong to the tube. -/
  tubeSize : Int
deriving Inhabited

namespace Standing

variable {α : Type} [Scalar α]

/-- The standing of an entity that was never observed. -/
def empty (divisions tubeSize : Int) : Standing α :=
  ⟨0, 0, 0, 0, Scalar.zero, Evidence.nothing, divisions, tubeSize⟩

/-- The divisions and the tube size, which have to agree where standings are merged. -/
def grid (s : Standing α) : Int × Int := (s.divisions, s.tubeSize)

/-- The standing that two parts of the observations give together. Counts and cells add up, so
a cell that both parts touch counts twice. -/
def merge (a b : Standing α) : Except Fault (Standing α) :=
  if a.grid = b.grid then
    .ok {
      tubeCount := a.tubeCount + b.tubeCount
      boxCount := a.boxCount + b.boxCount
      boxCells := a.boxCells + b.boxCells
      tubeCells := a.tubeCells + b.tubeCells
      spread := Stats.combineDeviations a.spread b.spread
      evidence := a.evidence.merge b.evidence
      divisions := a.divisions
      tubeSize := a.tubeSize }
  else .error (.gridsDiffer a.grid b.grid)

end Standing

/-- Standings by key, in the order in which the keys arrived. -/
abbrev Rankings (α : Type) := Catalog String (Standing α)

namespace Rankings

variable {α : Type} [Scalar α]

/-- Takes in one more standing, merging it with the one that its key has. -/
def absorb (m : Rankings α) (entry : String × Standing α) : Except Fault (Rankings α) :=
  match m.get? entry.1 with
  | some s => do return m.insert entry.1 (← s.merge entry.2)
  | none => .ok (m.insert entry.1 entry.2)

/-- The rankings of several parts together. -/
def mergeAll (maps : List (Rankings α)) : Except Fault (Rankings α) :=
  (maps.flatMap Catalog.entries).foldlM absorb Catalog.empty

end Rankings

end Corridor
