import Corridor.Catalog
import Corridor.Grid
import Corridor.Ping
import Corridor.Trace

/-!
# Collections of Pings

A collection holds the pings of many entities, in the order in which they were given. Pings
whose position is not finite are dropped. If any ping that was given has a zoned time, all times
are held in UTC, naive ones being taken as it; otherwise they stay naive.

A collection answers how often each entity was observed, how often in each cell of a grid, and
what the pings of each entity are; and it can be restricted to shapes.
-/

namespace Corridor

/-- Pings with finite positions, whose times are all in UTC or all naive. -/
structure PingCollection where
  pings : List Ping
deriving Inhabited

namespace PingCollection

/-- The collection of no pings. -/
def empty : PingCollection := ⟨[]⟩

/-- The pings whose position is not finite. -/
def misplaced (ps : List Ping) : List Ping := ps.filter fun p => !p.position.isFinite

/-- Whether a ping has a zoned time. -/
def isZoned (p : Ping) : Bool := p.time?.any Timestamp.isZoned

/-- The collection of the pings that have a finite position. -/
def ofList (ps : List Ping) : PingCollection :=
  let placed := ps.filter fun p => p.position.isFinite
  if ps.any isZoned then ⟨placed.map fun p => { p with time? := p.time?.map Timestamp.toUtc }⟩
  else ⟨placed⟩

/-- The collection of the pings that have a finite position. Dropped pings are logged. -/
def gather (ps : List Ping) : Run PingCollection := do
  let dropped := (misplaced ps).length
  if dropped ≠ 0 then
    Run.log .warning
      ("Dropping " ++ toString dropped ++ " observations with non-finite coordinates")
  return ofList ps

/-- How many pings a collection holds. -/
def size (c : PingCollection) : Nat := c.pings.length

/-- How often each entity was observed. -/
def countKeys (c : PingCollection) : Catalog String Nat := Catalog.tally (c.pings.map Ping.key)

/-- How a collection is shown. -/
def display (c : PingCollection) : String :=
  "PingCollection(n=" ++ toString c.size ++ ", keys=" ++ toString c.countKeys.size ++ ")"

/-- Whether the time of a ping can be told: it is unknown or lies in the years 1 to 9999. -/
def isTellable (p : Ping) : Bool := p.time?.all Timestamp.inRange

/-- The pings of each entity in the order of the collection, entities in order of first
appearance. -/
def groups (c : PingCollection) : Except Fault (Catalog String (List Ping)) :=
  if c.pings.all isTellable then
    .ok (Catalog.tabulate (c.pings.map Ping.key) fun k => c.pings.filter fun p => p.key == k)
  else .error .timeOutOfRange

/-- How often each entity was observed in each cell of a grid, cells in row-major order. Cells
without observations are left out. -/
def gridCounts (c : PingCollection) (g : Grid Float) :
    Except Fault (Catalog Cell (Catalog String Nat)) := do
  if c.pings.isEmpty then return Catalog.empty
  let cells ← g.cellsAt (c.pings.map Ping.lon) (c.pings.map Ping.lat)
  let binned := cells.zip (c.pings.map Ping.key)
  return Catalog.tabulate (cells.mergeSort Cell.before) fun cell =>
    Catalog.tally ((binned.filter fun b => b.1 = cell).map (·.2))

/-- The collection of the pings that one of the shapes covers. -/
def within (c : PingCollection) (shapes : List (Option Shape)) : PingCollection :=
  let shapes := Shape.present shapes
  ofList (c.pings.filter fun p => shapes.any fun s => s.covers p.position)

end PingCollection

/-! ### Columns -/

/-- Pings given by columns, of which some may be missing. -/
structure Columns where
  keys? : Option (List Datum)
  lons? : Option (List Float)
  lats? : Option (List Float)
  times? : Option (List (Option Timestamp))
  /-- The lengths of all other columns. -/
  others : List Nat
deriving Inhabited

namespace Columns

/-- The lengths of all columns. -/
def lengths (c : Columns) : List Nat :=
  (c.keys?.map List.length).toList ++ (c.lons?.map List.length).toList ++
    (c.lats?.map List.length).toList ++ (c.times?.map List.length).toList ++ c.others

/-- Whether all columns have the same length. -/
def isEven (c : Columns) : Bool :=
  match c.lengths with
  | [] => true
  | n :: ns => ns.all (· == n)

/-- The names of the columns that are missing and must not be. -/
def missing (c : Columns) : List String :=
  (if c.keys?.isNone then ["key"] else []) ++ (if c.lons?.isNone then ["lon"] else []) ++
    (if c.lats?.isNone then ["lat"] else [])

/-- The pings of the rows, whose keys are written as text. -/
def rows : Nat → List Datum → List Float → List Float → List (Option Timestamp) → List Ping
  | serial, key :: keys, lon :: lons, lat :: lats, times =>
      ⟨serial, key.plain, lon, lat, times.head?.join⟩ ::
        rows (serial + 1) keys lons lats times.tail
  | _, _, _, _, _ => []

/-- The pings of the columns. -/
def pings (c : Columns) : Except Fault (List Ping) :=
  if !c.isEven then .error .columnsUneven
  else if !c.missing.isEmpty then .error (.columnsMissing c.missing)
  else
    .ok (rows 0 (c.keys?.getD []) (c.lons?.getD []) (c.lats?.getD []) (c.times?.getD []))

end Columns

end Corridor
