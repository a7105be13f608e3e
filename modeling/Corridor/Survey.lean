import Corridor.Grid
import Corridor.Standing

/-!
# Surveys

What a ranking counts before any scoring: how often each entity was observed in the tube and in
the box, how often in each cell of the grid, and which cells belong to the tube. The standings
follow from a survey and the evidence of motion alone.
-/

namespace Corridor

namespace CellCounts

variable {κ : Type} [BEq κ]

/-- Caps every count at one, which turns counts into coverage. -/
def capped (m : Catalog κ Int) : Catalog κ Int := m.map fun _ n => min n 1

/-- Adds up the counts of each key over several maps. -/
def totals (ms : List (Catalog κ Int)) : Catalog κ Int :=
  (ms.flatMap Catalog.entries).foldl (fun t e => t.insert e.1 (t.getD e.1 0 + e.2)) Catalog.empty

/-- The counts of a key in those of the maps that have it. -/
def countsOf (ms : List (Catalog κ Int)) (k : κ) : List Int := ms.filterMap fun m => m.get? k

variable {α : Type} [Scalar α]

/-- The deviation of the counts of a key per cell, the cells in which it has none counting as
zero. -/
def spreadOf (ms : List (Catalog κ Int)) (cells : Int) (k : κ) : Except ArithmeticFault α := do
  let counts ← (countsOf ms k).mapM (Scalar.ofInt (α := α))
  let zeros := List.replicate (cells - counts.length).toNat Scalar.zero
  Stats.deviation (counts ++ zeros)

/-- The deviation of the counts per cell of every key. -/
def spreads (ms : List (Catalog κ Int)) (cells : Int) : Except ArithmeticFault (Catalog κ α) := do
  let keys := (ms.flatMap Catalog.keys).eraseDups
  return ⟨← keys.mapM fun k => do return (k, ← spreadOf ms cells k)⟩

end CellCounts

/-- The counts of one ranking. -/
structure Survey where
  /-- Observations in the tube by key. -/
  tubeKeys : Catalog String Nat
  /-- Observations in the box by key. -/
  boxKeys : Catalog String Nat
  /-- Observations in the box by cell and key. -/
  cells : Catalog Cell (Catalog String Nat)
  /-- The cells of the tube. -/
  tube : List Cell
  divisions : Nat
deriving Inhabited

namespace Survey

/-- The counts of each cell of the grid. -/
def boxMaps (s : Survey) : List (Catalog String Int) :=
  s.cells.values.map fun m => m.map fun _ (n : Nat) => (n : Int)

/-- The counts of each cell of the tube. -/
def tubeMaps (s : Survey) : List (Catalog String Int) :=
  (s.cells.filterKeys s.tube.contains).values.map fun m => m.map fun _ (n : Nat) => (n : Int)

/-- How many cells each entity touches. -/
def boxCoverage (s : Survey) : Catalog String Int :=
  CellCounts.totals (s.boxMaps.map CellCounts.capped)

/-- How many cells of the tube each entity touches. -/
def tubeCoverage (s : Survey) : Catalog String Int :=
  CellCounts.totals (s.tubeMaps.map CellCounts.capped)

/-- All keys of the tube and the box. -/
def keys (s : Survey) : List String := (s.tubeKeys.keys ++ s.boxKeys.keys).eraseDups

variable {α : Type} [Scalar α]

/-- The deviations of the counts per cell of the tube. -/
def spreads (s : Survey) : Except ArithmeticFault (Catalog String α) :=
  CellCounts.spreads s.tubeMaps s.tube.length

/-- The standings that follow from a survey, given the spreads and the evidence. -/
def standings (s : Survey) (spreads : Catalog String α) (evidence : Catalog String (Evidence α)) :
    Rankings α :=
  let box := s.boxCoverage
  let tube := s.tubeCoverage
  Catalog.tabulate s.keys fun k => {
    tubeCount := s.tubeKeys.getD k 0
    boxCount := s.boxKeys.getD k 0
    boxCells := box.getD k 0
    tubeCells := tube.getD k 0
    spread := spreads.getD k Scalar.zero
    evidence := evidence.getD k Evidence.nothing
    divisions := s.divisions
    tubeSize := s.tube.length }

end Survey

end Corridor
