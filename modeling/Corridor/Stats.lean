import Corridor.Number.Scalar

/-!
# Statistics

Spread and averages over any scalar. Deviations are those of a population: they divide by the
number of values.
-/

namespace Corridor.Stats

variable {α : Type} [Scalar α]

open Scalar

/-- The arithmetic mean of a list that is not empty. -/
def mean (xs : List α) : Except ArithmeticFault α := do
  return (← total xs) / (← ofInt xs.length)

/-- The standard deviation from a given centre; zero for no values. -/
def deviationFrom (centre : α) (xs : List α) : Except ArithmeticFault α := do
  if xs.isEmpty then return zero
  let squares := xs.map fun x => (x - centre) * (x - centre)
  return sqrt (← mean squares)

/-- The standard deviation from the arithmetic mean; zero for no values. -/
def deviation (xs : List α) : Except ArithmeticFault α := do
  if xs.isEmpty then return zero
  deviationFrom (← mean xs) xs

/-- The root of the product of a list, of as high a degree as there are factors: zero for no
factors, undefined for a negative product. -/
def geometricMean (xs : List α) : α :=
  if xs.isEmpty then zero
  else if lt (product xs) zero then undefined
  else root (product xs) xs.length

/-- The standard deviation of the sum of two independent variables. -/
def combineDeviations (a b : α) : α := sqrt (a * a + b * b)

/-- The greatest of a list, the first of equals. -/
def greatest (x : α) (xs : List α) : α := xs.foldl larger x

/-- The least of a list, the first of equals. -/
def least (x : α) (xs : List α) : α := xs.foldl smaller x

end Corridor.Stats
