import Corridor.Datum.Number
import Corridor.Stats

/-!
# Statistics of Data

The deviation and the geometric mean of values of any kind. The first takes every value as a
double; the second keeps integers exact until a double is among the factors.
-/

namespace Corridor.Datum

/-- The deviation of values from a centre, or from their mean if the centre is null. The centre
is not looked at if there are no values. -/
def deviation (values : List Datum) (centre : Datum) : Except Fault Float := do
  let xs ← values.mapM toColumnFloat
  if xs.isEmpty then return 0
  match centre with
  | .null => Stats.deviation xs
  | d => Stats.deviationFrom (← d.toFloat) xs

/-- The product of values, from left to right. -/
def product (values : List Datum) : Except Fault Quantity :=
  values.foldlM (fun p d => do p.mul (← d.toQuantity)) (.whole 1)

/-- The geometric mean of values: zero for none, undefined for a negative product. -/
def geometricMean (values : List Datum) : Except Fault Float := do
  if values.isEmpty then return 0
  Quantity.rootOf (← product values) values.length

end Corridor.Datum
