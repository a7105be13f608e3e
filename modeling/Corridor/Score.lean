import Corridor.Standing

/-!
# Scores

The scores by which entities are ranked. The inverse document frequency reads the cells of the
grid as documents and the entity as a term: the fewer cells it touches, the higher. It is
weighted by how densely the entity was observed in the tube, by the share of the tube that it
covers and by how evenly it is spread there, and at last by its evidence of motion.
-/

namespace Corridor

namespace Standing

variable {α : Type} [Scalar α]

open Scalar

/-- The logarithm of the cells of the grid per cell touched. An entity that touches no cell has
the largest one. -/
def idf (s : Standing α) : Except ArithmeticFault α :=
  if s.boxCells = 0 then .ok largest
  else do log (← quotient (s.divisions * s.divisions) s.boxCells)

/-- The inverse document frequency times the observations in the tube. -/
def tfIdf (s : Standing α) : Except ArithmeticFault α := do
  return (← s.idf) * (← ofInt s.tubeCount)

/-- Observations in the tube per cell of the tube; zero if the tube has no cells. -/
def density (s : Standing α) : Except ArithmeticFault α :=
  if s.tubeSize = 0 then .ok zero else quotient s.tubeCount s.tubeSize

/-- The spread in units of the density; zero unless the density is positive. -/
def scaledSpread (s : Standing α) : Except ArithmeticFault α := do
  let d ← s.density
  return if lt zero d then s.spread / d else zero

/-- How evenly the entity is spread over the tube: one if perfectly, towards zero if it is
concentrated in one place. -/
def evenness (s : Standing α) : Except ArithmeticFault α := do exp (-(← s.scaledSpread))

/-- The inverse document frequency times the density. -/
def scaledTfIdf (s : Standing α) : Except ArithmeticFault α := do
  return (← s.idf) * (← s.density)

/-- The share of the cells of the tube that the entity touches; zero if the tube has no
cells. -/
def coverage (s : Standing α) : Except ArithmeticFault α :=
  if s.tubeSize = 0 then .ok zero else quotient s.tubeCells s.tubeSize

/-- The geometric mean of the scores that do not regard motion. -/
def placeScore (s : Standing α) : Except ArithmeticFault α := do
  return Stats.geometricMean [← s.scaledTfIdf, ← s.coverage, ← s.evenness]

/-- The geometric mean of the score that does not regard motion, the logarithm of one more than
the total evidence, and the greatest evidence; zero unless the total is positive. -/
def combinedScore (s : Standing α) : Except ArithmeticFault α := do
  if lt zero s.evidence.total then
    return Stats.geometricMean
      [← s.placeScore, ← log (s.evidence.total + one), s.evidence.max]
  else return zero

end Standing

/-- The scores that results can be sorted by. -/
inductive Score where
  | combined
  | place
  | tfIdf
  | scaledTfIdf
  | idf
  | coverage
  | evenness
  | evidenceTotal
  | evidenceMax
  | tubeCount
  | boxCount
deriving Repr, DecidableEq, Inhabited

namespace Score

/-- All scores. -/
def all : List Score :=
  [combined, place, tfIdf, scaledTfIdf, idf, coverage, evenness, evidenceTotal, evidenceMax,
   tubeCount, boxCount]

/-- The name of a score. -/
def name : Score → String
  | combined => "combined_score"
  | place => "combined_score_no_motion"
  | tfIdf => "tf_idf"
  | scaledTfIdf => "scaled_tf_idf"
  | idf => "idf"
  | coverage => "percentage_of_tube_cells_covered"
  | evenness => "tube_cell_deviation_score"
  | evidenceTotal => "motion_evidence_total"
  | evidenceMax => "motion_evidence_max"
  | tubeCount => "tube_count"
  | boxCount => "box_count"

/-- The name of a score in capitals. -/
def label (s : Score) : String := s.name.map Char.toUpper

/-- The score of a given name. -/
def ofName? (name : String) : Option Score := all.find? fun s => s.name == name

/-- The score that a value names. -/
def ofDatum : Datum → Except Fault Score
  | .text name => match ofName? name with
    | some s => .ok s
    | none => .error .scoreUnknown
  | _ => .error .scoreUnknown

/-- The names of all scores in alphabetical order. -/
def sortedNames : List String := (all.map name).mergeSort fun a b => a ≤ b

variable {α : Type} [Scalar α]

/-- The score of a standing. -/
def of : Score → Standing α → Except ArithmeticFault α
  | combined => Standing.combinedScore
  | place => Standing.placeScore
  | tfIdf => Standing.tfIdf
  | scaledTfIdf => Standing.scaledTfIdf
  | idf => Standing.idf
  | coverage => Standing.coverage
  | evenness => Standing.evenness
  | evidenceTotal => fun s => .ok s.evidence.total
  | evidenceMax => fun s => .ok s.evidence.max
  | tubeCount => fun s => Scalar.ofInt s.tubeCount
  | boxCount => fun s => Scalar.ofInt s.boxCount

end Score

end Corridor
