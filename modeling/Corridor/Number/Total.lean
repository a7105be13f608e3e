import Corridor.Number.Double
import Corridor.Number.Fault

/-!
# Exact Totals

The total of a list of doubles is its exact sum, rounded once. While it is formed, the finite
terms are held as *partials*: doubles whose exact sum is the sum so far. A term is absorbed by
adding it to the partials one after the other; each addition leaves the rounded sum to be
carried on and its rounding error as a new partial. A rounded sum beyond the largest double is a
fault, even where the total of all terms would fit.

Terms that are not finite do not enter the partials. They clear them and decide the total: both
infinities are a fault, otherwise a NaN gives NaN and an infinity gives itself.
-/

namespace Corridor.Total

open Double

/-- Adds `x` to the partials, all counted in units; `none` when a rounded sum has no double. -/
def absorb (x : Int) : List Int → Option (List Int)
  | [] => some (if x = 0 then [] else [x])
  | p :: ps => do
      let high ← roundUnits? (x + p)
      let low := x + p - high
      let rest ← absorb high ps
      some (if low = 0 then rest else low :: rest)

/-- The partials after one more term. -/
def step (partials : List Int) (x : Float) : Option (List Int) :=
  if x.isFinite then absorb (units x) partials else some []

/-- The sum of the finite terms in units. -/
def exactUnits (xs : List Float) : Int :=
  xs.foldl (fun n x => if x.isFinite then n + units x else n) 0

/-- The total of a list of doubles. -/
def ofList (xs : List Float) : Except ArithmeticFault Float :=
  match xs.foldlM step [] with
  | none => .error .partialTooLarge
  | some _ =>
      let up := xs.any fun x => x.isInf && !isNegative x
      let down := xs.any fun x => x.isInf && isNegative x
      if up && down then .error .opposedInfinities
      else if xs.any Float.isNaN then .ok undefined
      else if up then .ok infinity
      else if down then .ok (-infinity)
      else .ok (ofUnits (exactUnits xs))

end Corridor.Total
