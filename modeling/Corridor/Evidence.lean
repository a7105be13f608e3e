import Corridor.Stats

/-!
# Evidence of Motion

The scores of the tracklets of one entity, summed up in three numbers. The summaries of two
parts of the observations merge into one for both; their deviations are combined as if the parts
were independent.
-/

namespace Corridor

/-- A summary of tracklet scores. -/
structure Evidence (α : Type) where
  total : α
  max : α
  deviation : α
deriving Inhabited

namespace Evidence

variable {α : Type} [Scalar α]

/-- The evidence of no tracklets. -/
def nothing : Evidence α := ⟨Scalar.zero, Scalar.zero, Scalar.zero⟩

/-- The evidence of two parts together. -/
def merge (a b : Evidence α) : Evidence α where
  total := a.total + b.total
  max := Scalar.larger a.max b.max
  deviation := Stats.combineDeviations a.deviation b.deviation

/-- The evidence of a list of scores. -/
def summarize : List α → Except ArithmeticFault (Evidence α)
  | [] => .ok nothing
  | s :: ss => do
      let total ← Scalar.total (s :: ss)
      let mean := total / (← Scalar.ofInt (ss.length + 1))
      return ⟨total, Stats.greatest s ss, ← Stats.deviationFrom mean (s :: ss)⟩

end Evidence

end Corridor
