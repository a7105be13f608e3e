import Corridor.Number.Scalar

/-!
# Quantities

A number given either as an integer of any size or as a double. Integers stay exact for as long
as no double is involved; comparisons between the two kinds are exact as well.
-/

namespace Corridor

/-- An integer of any size, or a double. -/
inductive Quantity where
  | whole (value : Int)
  | real (value : Float)
deriving Inhabited

namespace Quantity

/-- The nearest double. -/
def toFloat : Quantity → Except ArithmeticFault Float
  | whole n => Scalar.ofInt n
  | real x => .ok x

/-- Whether the double `x` is less than a quantity. -/
def isAbove (x : Float) : Quantity → Bool
  | real y => x < y
  | whole n =>
      if x.isNaN then false
      else if x.isInf then Double.isNegative x
      else Double.compareInt x n == .lt

/-- Whether the double `x` is at least a quantity. -/
def isAtMost (x : Float) : Quantity → Bool
  | real y => y ≤ x
  | whole n =>
      if x.isNaN then false
      else if x.isInf then !Double.isNegative x
      else Double.compareInt x n != .lt

/-- Whether a quantity is positive. -/
def isPositive : Quantity → Bool
  | whole n => 0 < n
  | real x => 0 < x

/-- Whether a quantity is negative. -/
def isNegative : Quantity → Bool
  | whole n => n < 0
  | real x => x < 0

/-- Whether two quantities are the same number. -/
def sameNumber : Quantity → Quantity → Bool
  | whole m, whole n => m == n
  | real x, real y => x == y
  | real x, whole n | whole n, real x => x.isFinite && Double.compareInt x n == .eq

/-- The product of two quantities; an integer factor of a double is converted first. -/
def mul : Quantity → Quantity → Except ArithmeticFault Quantity
  | whole m, whole n => .ok (whole (m * n))
  | a, b => do return real ((← a.toFloat) * (← b.toFloat))

/-- The `n`-th root; undefined for a negative quantity. -/
def rootOf (q : Quantity) (n : Nat) : Except ArithmeticFault Float := do
  if q.isNegative then return Double.undefined
  return Double.Elementary.native.root (← q.toFloat) n

end Quantity

end Corridor
