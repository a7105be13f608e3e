import Corridor.Datum.Number
import Corridor.Score

/-!
# Listings

The entities of a ranking in order of a score, highest first, cut into pages; and all fields and
scores of a ranking as a table.

Scores that are not numbers come last. Equal scores, and those that are not numbers, are ordered
by key. The order is total on entries of different keys, so a listing depends on the entries
alone and not on the order in which they arrived.
-/

namespace Corridor

namespace Listing

/-- Whether an entry of a key and its score may stand before another. -/
def before (a b : String × Float) : Bool :=
  if a.2.isNaN then b.2.isNaN && a.1 ≤ b.1
  else b.2.isNaN || b.2 < a.2 || (a.2 == b.2 && a.1 ≤ b.1)

/-- The entries with the score of each. -/
def scored (m : Rankings Float) (score : Score) : Except Fault (List (String × Float)) :=
  m.entries.mapM fun e => do return (e.1, ← score.of e.2)

/-- All keys in order of a score. -/
def sort (m : Rankings Float) (score : Score) : Except Fault (List String) := do
  return ((← scored m score).mergeSort before).map (·.1)

/-! ### Pages -/

/-- A list without as many items as are skipped, and no longer than the limit. -/
def page {α : Type} (skip : Nat) (limit? : Option Nat) (xs : List α) : List α :=
  match limit? with
  | none => xs.drop skip
  | some limit => (xs.drop skip).take limit

/-- A bound of a page, which must not be negative. -/
def bound (field : String) (d : Datum) : Except Fault Quantity := do
  let q ← d.toQuantity
  if q.isNegative then .error (.pagingNegative field d) else return q

/-- The integer bounds of a page. Bounds that are not integers are refused; before that, an
integer that is added to one that is not has to be a double. -/
def integerBounds (skip : Quantity) : Option Quantity → Except Fault (Nat × Option Nat)
  | none => match skip with
    | .whole n => .ok (n.toNat, none)
    | .real _ => .error .notComparable
  | some limit => match skip, limit with
    | .whole n, .whole m => .ok (n.toNat, some m.toNat)
    | a, b => do
        let _ ← (a.toFloat : Except ArithmeticFault Float)
        let _ ← (b.toFloat : Except ArithmeticFault Float)
        .error .notComparable

/-- A page of the keys in order of a score. The score is looked up first, then the bounds are
checked, and whether they are integers matters only after the scores are known. -/
def pageOf (m : Rankings Float) (score skip limit : Datum) : Except Fault (List String) := do
  let score ← Score.ofDatum score
  let skip ← bound "skip" skip
  let limit? ← match limit with
    | .null => pure none
    | limit => some <$> bound "max_results" limit
  let keys ← sort m score
  let (skip, limit?) ← integerBounds skip limit?
  return page skip limit? keys

end Listing

/-! ### Tables -/

/-- A table: the names of its columns, and a key and the cells of each row. -/
structure Table where
  columns : List String
  rows : List (String × List Datum)
deriving Inhabited

namespace Table

/-- The fields of a standing, by their names. -/
def fields (s : Standing Float) : List (String × Datum) :=
  [("tube_count", .whole s.tubeCount), ("box_count", .whole s.boxCount),
   ("box_cells_covered", .whole s.boxCells), ("tube_cells_covered", .whole s.tubeCells),
   ("tube_cells_stddev", .real s.spread), ("grid_divisions", .whole s.divisions),
   ("n_tube_cells", .whole s.tubeSize)]

/-- The names of the fields. -/
def fieldNames : List String := (fields default).map (·.1)

/-- The columns of a table: the fields and then the scores. -/
def columnNames : List String := fieldNames ++ Score.all.map Score.name

/-- The cells of a standing by column. A score takes the place of a field of its name. -/
def record (s : Standing Float) : Except Fault (Catalog String Datum) := do
  let scores ← Score.all.mapM fun score => do return (score.name, Datum.real (← score.of s))
  return Catalog.ofList (fields s ++ scores)

/-- The table of a ranking, one row per entity. -/
def ofRankings (m : Rankings Float) : Except Fault Table := do
  let rows ← m.entries.mapM fun e => do
    let cells ← record e.2
    return (e.1, columnNames.map fun name => cells.getD name .null)
  return ⟨columnNames, rows⟩

end Table

end Corridor
