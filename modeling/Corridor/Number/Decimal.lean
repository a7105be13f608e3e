import Corridor.Number.Double

/-!
# Decimal Texts of Doubles

Three ways of writing a double in decimal, all decided by exact integer arithmetic on its units:

* `scientific` keeps a given number of places after the point of a mantissa in `[1, 10)`;
* `fixed` keeps a given number of places after the point;
* `shortest` keeps the fewest digits that still read back to the same double.

The first two round the exact value, an exact half to the even neighbour.
-/

namespace Corridor.Decimal

open Double

/-- Powers are taken as in the core library, whatever other powers are in scope. -/
local instance (priority := high) powNat : Pow Nat Nat := instPowNat

/-- A positive decimal number `digits * 10 ^ exponent`. -/
structure Magnitude where
  digits : Nat
  exponent : Int
deriving Repr, DecidableEq, Inhabited

/-- Whether `a * 10 ^ k` is at most `n` units. -/
def atMostUnits (a : Nat) (k : Int) (n : Nat) : Bool :=
  a * 10 ^ k.toNat * unitsPerOne ≤ n * 10 ^ (-k).toNat

/-- The decimal exponent of a positive number of units: the greatest `k` for which `10 ^ k` is
at most the number. The estimate from the binary logarithm is off by one at most. -/
def leadingExponent (n : Nat) : Int :=
  let estimate := ((n.log2 : Int) - 1074) * 30103 / 100000
  if atMostUnits 1 (estimate + 1) n then estimate + 1
  else if atMostUnits 1 estimate n then estimate
  else estimate - 1

/-- `n` units divided by `10 ^ k`, rounded to a whole number. -/
def roundAt (n : Nat) (k : Int) : Nat :=
  roundQuotient (n * 10 ^ (-k).toNat) (unitsPerOne * 10 ^ k.toNat)

/-- A positive number of units rounded to `count` significant digits. -/
def roundDigits (n count : Nat) : Magnitude :=
  let k := leadingExponent n - count + 1
  let d := roundAt n k
  if d = 10 ^ count then ⟨10 ^ (count - 1), k + 1⟩ else ⟨d, k⟩

/-! ### Fewest digits -/

/-- Whether a decimal number lies among the reals that round to `n` units, a value that is a
double: from halfway to the double below to halfway to the double above, the ends belonging to
it when its last kept bit is even. Below a power of two the gap is half as wide. -/
def readsBack (n : Nat) (d : Magnitude) : Bool :=
  let step := 2 ^ droppedBits n
  let below := if n = 2 ^ (52 : Nat) * step && 1 < step then step else 2 * step
  let value := 4 * d.digits * 10 ^ d.exponent.toNat * unitsPerOne
  let scale := 10 ^ (-d.exponent).toNat
  let low := (4 * n - below) * scale
  let high := (4 * n + 2 * step) * scale
  if n / step % 2 = 0 then low ≤ value && value ≤ high else low < value && value < high

/-- The better of the two neighbours of `n` units with `count` significant digits, if one of
them reads back. -/
def neighbourDigits? (n count : Nat) : Option Magnitude :=
  let k := leadingExponent n - count + 1
  let floor := n * 10 ^ (-k).toNat / (unitsPerOne * 10 ^ k.toNat)
  let nearest := roundAt n k
  let other := if nearest = floor then floor + 1 else floor
  if readsBack n ⟨nearest, k⟩ then some ⟨nearest, k⟩
  else if readsBack n ⟨other, k⟩ then some ⟨other, k⟩
  else none

/-- Moves the zeros at the end of the digits into the exponent. -/
def stripZeros : Nat → Magnitude → Magnitude
  | 0, d => d
  | fuel + 1, d =>
      if d.digits % 10 = 0 && d.digits ≠ 0 then stripZeros fuel ⟨d.digits / 10, d.exponent + 1⟩
      else d

/-- The fewest digits that read back to a positive number of units. Seventeen always suffice. -/
def fewestDigits (n : Nat) : Magnitude :=
  let found := (List.range 17).findSome? fun i => neighbourDigits? n (i + 1)
  stripZeros 17 (found.getD (roundDigits n 17))

/-! ### Layout -/

/-- Puts zeros in front up to a length. -/
def padZeros (width : Nat) (cs : List Char) : List Char :=
  List.replicate (width - cs.length) '0' ++ cs

/-- Splits digits before the last `places` of them and sets a point there. -/
def setPoint (places : Nat) (cs : List Char) : List Char :=
  let cs := padZeros (places + 1) cs
  let whole := cs.take (cs.length - places)
  if places = 0 then whole else whole ++ '.' :: cs.drop (cs.length - places)

/-- An exponent with its sign and at least two digits. -/
def exponentText (e : Int) : List Char :=
  'e' :: (if e < 0 then '-' else '+') :: padZeros 2 (Nat.toDigits 10 e.natAbs)

/-- The mantissa of `digits` with the point after the first of them. -/
def mantissaText (digits : List Char) : List Char :=
  setPoint (digits.length - 1) digits

/-- The sign, and the text of the magnitude unless the value is not finite. -/
def signed (x : Float) (body : Nat → List Char) : String :=
  if x.isNaN then "nan"
  else
    let mark := if isNegative x then ['-'] else []
    if x.isInf then String.ofList (mark ++ ['i', 'n', 'f'])
    else String.ofList (mark ++ body (magnitude x))

/-- A mantissa with `places` digits after the point, and an exponent. -/
def scientific (places : Nat) (x : Float) : String :=
  signed x fun n =>
    if n = 0 then setPoint places (padZeros (places + 1) []) ++ exponentText 0
    else
      let d := roundDigits n (places + 1)
      mantissaText (Nat.toDigits 10 d.digits) ++ exponentText (d.exponent + places)

/-- `places` digits after the point. -/
def fixed (places : Nat) (x : Float) : String :=
  signed x fun n => setPoint places (Nat.toDigits 10 (roundAt n (-(places : Int))))

/-- The fewest digits that read back: positional with at least one digit after the point while
the exponent of the first digit lies in `[-4, 16)`, otherwise with an exponent. -/
def shortest (x : Float) : String :=
  signed x fun n =>
    if n = 0 then ['0', '.', '0']
    else
      let d := fewestDigits n
      let digits := Nat.toDigits 10 d.digits
      let leading := d.exponent + digits.length - 1
      if leading < -4 || 16 ≤ leading then mantissaText digits ++ exponentText leading
      else if 0 ≤ d.exponent then digits ++ List.replicate d.exponent.toNat '0' ++ ['.', '0']
      else setPoint (-d.exponent).toNat digits

end Corridor.Decimal
