import Corridor.Number.Double
import Corridor.Text.Blank
import Corridor.Text.Digit

/-!
# Reading Doubles

The decimal texts that denote a double: blanks around, an optional sign, and then `inf`,
`infinity` or `nan` in any case, or decimal digits with an optional point and an optional
exponent. A single `_` may stand between two digits, and the digits may be those of any script.
The value is rounded once, to the nearest double.
-/

namespace Corridor.Decimal

open Double

/-- Takes a run of digits in which a `_` may stand between two digits. Returns the digits and
the rest; no digit at the front gives no digits. -/
def takeDigits : List Char → List Char × List Char
  | [] => ([], [])
  | c :: '_' :: d :: rest =>
      if c.isDigit then
        if d.isDigit then
          let (ds, rest') := takeDigits (d :: rest)
          (c :: ds, rest')
        else ([c], '_' :: d :: rest)
      else ([], c :: '_' :: d :: rest)
  | c :: rest =>
      if c.isDigit then
        let (ds, rest') := takeDigits rest
        (c :: ds, rest')
      else ([], c :: rest)

/-- The number that a list of digits writes in a base, for digits `0` to `9` and letters. -/
def digitsValue (base : Nat) (cs : List Char) : Nat :=
  cs.foldl (fun n c =>
    n * base + (if c.isDigit then c.toNat - 48 else c.toLower.toNat - 87)) 0

/-- An optional sign: whether it is a minus, and what follows. -/
def takeSign : List Char → Bool × List Char
  | '-' :: cs => (true, cs)
  | '+' :: cs => (false, cs)
  | cs => (false, cs)

/-- The exponent part, which is absent or takes the rest of the text. -/
def readExponent : List Char → Option Int
  | [] => some 0
  | c :: cs =>
      if c = 'e' || c = 'E' then
        let (negative, cs) := takeSign cs
        match takeDigits cs with
        | (d :: ds, []) =>
            let n : Int := digitsValue 10 (d :: ds)
            some (if negative then -n else n)
        | _ => none
      else none

/-- The double nearest to `digits * 10 ^ exponent`. What is far beyond the doubles on either side
is not multiplied out. -/
def nearest (digits : Nat) (exponent : Int) : Float :=
  if digits = 0 || exponent + digits.log2 < -400 then 0
  else if 400 < exponent then infinity
  else Float.ofScientific digits (exponent < 0) exponent.natAbs

/-- A decimal number without its sign. -/
def readMagnitude (cs : List Char) : Option Float :=
  let (whole, rest) := takeDigits cs
  let (fraction, rest) := match rest with
    | '.' :: rest => takeDigits rest
    | rest => ([], rest)
  if whole.isEmpty && fraction.isEmpty then none
  else do
    let e ← readExponent rest
    some (nearest (digitsValue 10 (whole ++ fraction)) (e - fraction.length))

/-- The double that a text denotes, if it denotes one. -/
def read? (s : String) : Option Float :=
  let (negative, cs) := takeSign (Text.trimBlanks (s.toList.map Text.plainDigit))
  let value :=
    match String.ofList (cs.map Char.toLower) with
    | "inf" | "infinity" => some infinity
    | "nan" => some undefined
    | _ => readMagnitude cs
  value.map fun x => if negative then -x else x

end Corridor.Decimal
