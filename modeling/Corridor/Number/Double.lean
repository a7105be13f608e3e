/-!
# Exact Values of Doubles

Every finite double is a whole number of *units*, one unit being `2 ^ (-1074)`. The integer
`Double.units x` is that number, so exact questions about doubles (their sums, floors,
remainders and comparisons with integers) are questions about integers.

`Double.ofUnitRatio` goes the other way: the double nearest to a quotient of units, an exact
half going to the even neighbour. Every conversion that has to be rounded once goes through it.
-/

namespace Corridor.Double

/-- Powers are taken as in the core library, whatever other powers are in scope. -/
local instance (priority := high) powNat : Pow Nat Nat := instPowNat

/-- The number of units in one. -/
def unitsPerOne : Nat := 2 ^ (1074 : Nat)

/-- The bits of the positive infinity, which are also the bound of the finite magnitudes. -/
def infinityBits : Nat := 2047 * 2 ^ (52 : Nat)

/-- The positive infinity. -/
def infinity : Float := Float.ofBits 0x7FF0000000000000

/-- The value that is not a number. -/
def undefined : Float := Float.ofBits 0x7FF8000000000000

/-- The largest finite double. -/
def largest : Float := Float.ofBits 0x7FEFFFFFFFFFFFFF

/-- The sign bit, which zeros and infinities carry as well. -/
def isNegative (x : Float) : Bool := 2 ^ (63 : Nat) ≤ x.toBits.toNat

/-- The magnitude of a finite double in units. -/
def magnitude (x : Float) : Nat :=
  let exponent := x.toBits.toNat / 2 ^ (52 : Nat) % 2 ^ (11 : Nat)
  let fraction := x.toBits.toNat % 2 ^ (52 : Nat)
  if exponent = 0 then fraction else (2 ^ (52 : Nat) + fraction) * 2 ^ (exponent - 1)

/-- The value of a finite double in units. -/
def units (x : Float) : Int :=
  if isNegative x then -(magnitude x : Int) else magnitude x

/-- The double with the given sign and the given bits of its magnitude. -/
def ofSignedBits (negative : Bool) (bits : Nat) : Float :=
  Float.ofBits (UInt64.ofNat (if negative then 2 ^ (63 : Nat) + bits else bits))

/-- `x` with the sign of `y`. -/
def copySign (x y : Float) : Float :=
  ofSignedBits (isNegative y) (x.toBits.toNat % 2 ^ (63 : Nat))

/-! ### Rounding -/

/-- `num / den` as a whole number, rounded to nearest, an exact half to the even neighbour. -/
def roundQuotient (num den : Nat) : Nat :=
  let quotient := num / den
  let twice := 2 * (num % den)
  if twice < den then quotient
  else if den < twice then quotient + 1
  else quotient + quotient % 2

/-- How many low bits of a magnitude of `n` units a double does not keep. -/
def droppedBits (n : Nat) : Nat := n.log2 - 52

/-- The bits of the double nearest to `num / den` units. A carry out of the fraction steps the
exponent, so the two fields add up; what lies beyond the largest double is the infinity. -/
def nearestBits (num den : Nat) : Nat :=
  let shift := droppedBits (num / den)
  min (shift * 2 ^ (52 : Nat) + roundQuotient num (den * 2 ^ shift)) infinityBits

/-- The double nearest to `± num / den` units. -/
def ofSignedUnitRatio (negative : Bool) (num den : Nat) : Float :=
  ofSignedBits negative (nearestBits num den)

/-- The double nearest to `num / den` units; zero is positive. -/
def ofUnitRatio (num : Int) (den : Nat) : Float :=
  ofSignedUnitRatio (num < 0) num.natAbs den

/-- The double nearest to a whole number of units. -/
def ofUnits (n : Int) : Float := ofUnitRatio n 1

/-- The double nearest to `num / den`. -/
def ofRatio (num : Int) (den : Nat) : Float := ofUnitRatio (num * unitsPerOne) den

/-- A whole number of units rounded to a double, in units again; `none` beyond the largest
double. -/
def roundUnits? (n : Int) : Option Int :=
  let shift := droppedBits n.natAbs
  let rounded := roundQuotient n.natAbs (2 ^ shift) * 2 ^ shift
  if 2 ^ (1024 : Nat) * unitsPerOne ≤ rounded then none
  else some (if n < 0 then -(rounded : Int) else rounded)

/-- The double nearest to an integer; `none` beyond the largest double. -/
def ofInt? (n : Int) : Option Float :=
  let x := ofRatio n 1
  if x.isFinite then some x else none

/-- The double nearest to the quotient of two integers, negative when the signs differ, also
where the quotient is zero; `none` beyond the largest double. -/
def ofQuotient? (a b : Int) : Option Float :=
  let x := ofSignedUnitRatio ((a < 0) != (b < 0)) (a.natAbs * unitsPerOne) b.natAbs
  if x.isFinite then some x else none

/-! ### Exact operations -/

/-- The greatest integer that is at most a finite double. -/
def floor (x : Float) : Int := units x / unitsPerOne

/-- The integer nearest to `a / b` for positive `b`, an exact half to the even neighbour. -/
def nearestInt (a : Int) (b : Nat) : Int :=
  let quotient := a / b
  let twice := 2 * (a % b)
  if twice < b then quotient
  else if (b : Int) < twice then quotient + 1
  else quotient + quotient % 2

/-- Takes the nearest multiple of `period` off a finite `x`: the number of periods taken and
what is left, which is exact and keeps the sign of `x` where it is zero. -/
def reduce (x : Float) (period : Nat) : Int × Float :=
  let n := nearestInt (units x) (period * unitsPerOne)
  let rest := units x - n * (period * unitsPerOne)
  (n, if rest = 0 then copySign 0 x else ofUnits rest)

/-- Compares a finite double with an integer, exactly. -/
def compareInt (x : Float) (n : Int) : Ordering := compare (units x) (n * unitsPerOne)

end Corridor.Double
