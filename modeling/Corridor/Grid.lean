import Corridor.Fault
import Corridor.Shape

/-!
# Grids

A grid cuts an envelope into as many equal cells along each side as it has divisions. Rows count
latitude and columns longitude, both from the minimal corner. Every position belongs to a cell:
one outside the envelope to the nearest cell at its edge, and all positions to the first cell of
an axis of no extent.

The cells of a grid and the lookup of a cell are stated over any scalar. Building a grid from
an envelope that may be refused, and looking up coordinates that may not be finite, are stated
over doubles.
-/

namespace Corridor

/-- A rectangle in longitude and latitude. -/
structure Envelope (α : Type) where
  minLon : α
  minLat : α
  maxLon : α
  maxLat : α
deriving Inhabited

/-- A cell by its row and column. -/
structure Cell where
  row : Nat
  col : Nat
deriving Repr, DecidableEq, Inhabited

namespace Cell

/-- Row-major order. -/
def before (a b : Cell) : Bool := a.row < b.row || (a.row = b.row && a.col ≤ b.col)

end Cell

/-- One side of a grid: where it starts, and the size of its cells. -/
structure Axis (α : Type) where
  origin : α
  size : α
deriving Inhabited

/-- Equal cells over an envelope. -/
structure Grid (α : Type) where
  envelope : Envelope α
  divisions : Nat
  lonAxis : Axis α
  latAxis : Axis α
deriving Inhabited

section

variable {α : Type} [Scalar α]

open Scalar

namespace Axis

/-- The axis that cuts the way from `low` to `high` into equal parts. -/
def cut (low high : α) (divisions : Nat) : Except ArithmeticFault (Axis α) := do
  return ⟨low, (high - low) / (← ofInt divisions)⟩

/-- The cell of a coordinate: how many whole cells lie between the origin and it, but no less
than none and no more than leaves one cell. -/
def index (a : Axis α) (divisions : Nat) (v : α) : Nat :=
  if le a.size zero then 0
  else min (floor ((v - a.origin) / a.size)).toNat (divisions - 1)

/-- The middle of a cell, which may lie outside the grid. -/
def centre (a : Axis α) (i : Int) : Except ArithmeticFault α := do
  return a.origin + ((← ofInt i) + half) * a.size

end Axis

namespace Grid

/-- The grid with the given number of divisions over an envelope. -/
def cut (e : Envelope α) (divisions : Nat) : Except ArithmeticFault (Grid α) := do
  return ⟨e, divisions, ← Axis.cut e.minLon e.maxLon divisions,
    ← Axis.cut e.minLat e.maxLat divisions⟩

/-- The cell of a longitude and a latitude. -/
def cellAt (g : Grid α) (lon lat : α) : Cell :=
  ⟨g.latAxis.index g.divisions lat, g.lonAxis.index g.divisions lon⟩

/-- The longitude and latitude of the middle of a cell, which may lie outside the grid. -/
def centre (g : Grid α) (row col : Int) : Except ArithmeticFault (α × α) := do
  return (← g.lonAxis.centre col, ← g.latAxis.centre row)

/-- How many cells a grid has. -/
def size (g : Grid α) : Nat := g.divisions * g.divisions

/-- The cells of a grid, row by row. -/
def cells (g : Grid α) : List Cell :=
  (List.range g.divisions).flatMap fun row => (List.range g.divisions).map (Cell.mk row)

/-- The cells of a grid with their centres, row by row. -/
def centredCells (g : Grid α) : Except ArithmeticFault (List (Cell × (α × α))) :=
  g.cells.mapM fun c => return (c, ← g.centre c.row c.col)

end Grid

end

/-- How an envelope is given. -/
inductive Extent where
  /-- By bounds, which should be the least longitude and latitude and then the greatest. -/
  | bounds (values : List Float)
  /-- By a shape, whose bounds are taken. -/
  | shape (shape : Shape)
  /-- Not at all. -/
  | missing
deriving Inhabited

namespace Extent

/-- The bounds of the given positions. -/
def around (p : Position) (ps : List Position) : Envelope Float where
  minLon := (ps.map (·.lon)).foldl Scalar.smaller p.lon
  minLat := (ps.map (·.lat)).foldl Scalar.smaller p.lat
  maxLon := (ps.map (·.lon)).foldl Scalar.larger p.lon
  maxLat := (ps.map (·.lat)).foldl Scalar.larger p.lat

/-- The envelope, unless the minimal corner exceeds the maximal one or there are no bounds. -/
def envelope : Extent → Except Fault (Envelope Float)
  | bounds [minLon, minLat, maxLon, maxLat] =>
      if maxLon < minLon || maxLat < minLat then
        .error (.cornersSwapped minLon minLat maxLon maxLat)
      else .ok ⟨minLon, minLat, maxLon, maxLat⟩
  | bounds _ => .error .boundsNotFour
  | shape s => match s.positions with
    | [] => .error .envelopeEmpty
    | p :: ps => .ok (around p ps)
  | missing => .error .envelopeMissing

end Extent

namespace Grid

/-- The number of divisions that a value gives: a positive integer. -/
def divisionsOf : Datum → Except Fault Nat
  | .whole n => if 0 < n then .ok n.toNat else .error (.divisionsNotPositive (.whole n))
  | d => .error (.divisionsNotPositive d)

/-- The grid over an envelope, both as given. The divisions are looked at first. -/
def build (extent : Extent) (divisions : Datum) : Except Fault (Grid Float) := do
  let n ← divisionsOf divisions
  let e ← extent.envelope
  cut e n

/-- How a grid is shown in messages. -/
def display (g : Grid Float) : String :=
  let bounds := [g.envelope.minLon, g.envelope.minLat, g.envelope.maxLon, g.envelope.maxLat]
  "Grid(envelope=(" ++ ", ".intercalate (bounds.map Decimal.shortest) ++ "), divisions=" ++
    toString g.divisions ++ ")"

/-- The cells of longitudes and latitudes, which must be as many and finite. -/
def cellsAt (g : Grid Float) (lons lats : List Float) : Except Fault (List Cell) :=
  if lons.length ≠ lats.length then .error (.coordinateCounts lons.length lats.length)
  else if lons.all Float.isFinite && lats.all Float.isFinite then
    .ok (List.zipWith g.cellAt lons lats)
  else .error .coordinateNotFinite

/-- The cells whose centre one of the shapes covers, row by row. Without a shape that is there
and not empty there are none, whatever the grid. -/
def cellsCovered (g : Grid Float) (shapes : List (Option Shape)) :
    Except Fault (List Cell) := do
  let shapes := Shape.present shapes
  if shapes.isEmpty then return []
  let centred ← g.centredCells
  return (centred.filter fun c => shapes.any (·.covers ⟨c.2.1, c.2.2⟩)).map (·.1)

end Grid

end Corridor
