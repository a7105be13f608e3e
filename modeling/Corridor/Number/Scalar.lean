import Corridor.Number.Total

/-!
# Scalars

The arithmetic that grids, statistics and scores are computed in. Their definitions are stated
once, over any `Scalar`; a run of the program takes `Float`, where an operation is the rounded
one and may have no answer, and a statement about the formulas themselves may take an exact
field.

An operation that returns an `Except` is one that can fail at `Float`. Which arguments it fails
on is decided by the arguments alone: a logarithm fails on what is not positive, an exponential
on a finite number above a fixed bound.

Logarithms, exponentials and powers of doubles are not decided here: they are those of the
platform, and the arithmetic of doubles is stated over them.
-/

namespace Corridor

/-- Numbers with the operations that grids, statistics and scores need. -/
class Scalar (α : Type) extends Add α, Sub α, Mul α, Div α, Neg α where
  zero : α
  one : α
  half : α
  /-- A positive number that no score is expected to exceed. -/
  largest : α
  /-- The value of a formula that has none. -/
  undefined : α
  lt : α → α → Bool
  le : α → α → Bool
  /-- An integer as a number. -/
  ofInt : Int → Except ArithmeticFault α
  /-- The quotient of two integers, the second of them not zero. -/
  quotient : Int → Int → Except ArithmeticFault α
  /-- The sum of a list. -/
  total : List α → Except ArithmeticFault α
  sqrt : α → α
  log : α → Except ArithmeticFault α
  exp : α → Except ArithmeticFault α
  /-- `root x n` is the `n`-th root of `x`, which is not negative. -/
  root : α → Nat → α
  /-- The greatest integer that is at most a number. -/
  floor : α → Int

namespace Scalar

variable {α : Type} [Scalar α]

/-- The first of two numbers unless the second is greater. -/
def larger (a b : α) : α := if lt a b then b else a

/-- The first of two numbers unless the second is less. -/
def smaller (a b : α) : α := if lt b a then b else a

/-- The product of a list, from left to right. -/
def product (xs : List α) : α := xs.foldl (· * ·) one

end Scalar

namespace Double

/-- Powers are taken as in the core library, whatever other powers are in scope. -/
local instance (priority := high) powInt : Pow Int Nat := instPowNat

/-- The greatest number with a finite exponential. -/
def exponentialBound : Float := 709.782712893384

/-- The greatest integer that is at most `x`. What does not fit in 64 bits with a sign, or is no
number, lies below every integer that does. -/
def boundedFloor (x : Float) : Int :=
  let n := floor x
  if x.isFinite && -2 ^ (63 : Nat) ≤ n && n < 2 ^ (63 : Nat) then n else -2 ^ (63 : Nat)

/-- The elementary functions, whose values on doubles the platform decides. -/
structure Elementary where
  log : Float → Float
  exp : Float → Float
  pow : Float → Float → Float

namespace Elementary

/-- The functions of the platform that a run is made on. -/
def native : Elementary := ⟨Float.log, Float.exp, Float.pow⟩

/-- The natural logarithm of a positive number. -/
def logarithm (e : Elementary) (x : Float) : Except ArithmeticFault Float :=
  if x ≤ 0 then .error .logarithmDomain else .ok (e.log x)

/-- The exponential of a number that is at most `exponentialBound`, infinite or not a number. -/
def exponential (e : Elementary) (x : Float) : Except ArithmeticFault Float :=
  if x.isFinite && exponentialBound < x then .error .exponentialRange else .ok (e.exp x)

/-- The `n`-th root of a number that is not negative. -/
def root (e : Elementary) (x : Float) (n : Nat) : Float :=
  if x.isNaN then undefined else e.pow x (1 / Float.ofNat n)

/-- The arithmetic of doubles with the given elementary functions. -/
@[reducible] def scalar (e : Elementary) : Scalar Float where
  zero := 0
  one := 1
  half := 0.5
  largest := Double.largest
  undefined := Double.undefined
  lt a b := a < b
  le a b := a ≤ b
  ofInt n := match Double.ofInt? n with
    | some x => .ok x
    | none => .error .integerTooLarge
  quotient a b := match Double.ofQuotient? a b with
    | some x => .ok x
    | none => .error .quotientTooLarge
  total := Total.ofList
  sqrt := Float.sqrt
  log := e.logarithm
  exp := e.exponential
  root := e.root
  floor := Double.boundedFloor

end Elementary

end Double

instance : Scalar Float := Double.Elementary.native.scalar

end Corridor
