/-!
# Arithmetic Faults

The reasons for which a computation on numbers has no answer. Each names the cause and
nothing else; which kind of fault it counts as, and the words it is reported in, are
decided in `Corridor.Fault`.
-/

namespace Corridor

/-- Why a computation on numbers has no answer. -/
inductive ArithmeticFault where
  /-- An integer lies beyond every finite double. -/
  | integerTooLarge
  /-- The quotient of two integers lies beyond every finite double. -/
  | quotientTooLarge
  /-- A running partial of a sum of finite terms lies beyond every finite double. -/
  | partialTooLarge
  /-- A sum has both infinities among its terms. -/
  | opposedInfinities
  /-- The logarithm of a number that is not positive. -/
  | logarithmDomain
  /-- The exponential of a finite number lies beyond every finite double. -/
  | exponentialRange
  /-- A division by zero. -/
  | zeroDivisor
deriving Repr, DecidableEq, Inhabited

end Corridor
