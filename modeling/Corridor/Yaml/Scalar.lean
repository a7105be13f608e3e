import Corridor.Datum.Basic
import Corridor.Fault
import Corridor.Number.Reading
import Corridor.Yaml.Tag

/-!
# Meanings of Scalars

What the text of a scalar stands for. A plain scalar without a tag is null, a flag, a number or
a text, by its form; a scalar with the tag of a number has to write one. Integers are written in
base two, eight, ten or sixteen, and numbers may be written in base sixty with colons. Single
characters `_` inside numbers are dropped.
-/

namespace Corridor.Yaml.Scalar

/-! ### Forms -/

/-- The texts that stand for null. -/
def nullWords : List String := ["", "~", "null", "Null", "NULL"]

/-- The texts that stand for yes. -/
def yesWords : List String := ["yes", "Yes", "YES", "true", "True", "TRUE", "on", "On", "ON"]

/-- The texts that stand for no. -/
def noWords : List String := ["no", "No", "NO", "false", "False", "FALSE", "off", "Off", "OFF"]

/-- A list cut at every colon. -/
def cutAtColons : List Char → List (List Char)
  | [] => [[]]
  | c :: cs => match cutAtColons cs with
    | [] => [[c]]
    | part :: parts => if c = ':' then [] :: part :: parts else (c :: part) :: parts

/-- Whether all characters are digits of a base or underscores, and there is one. -/
def isRun (p : Char → Bool) (cs : List Char) : Bool :=
  !cs.isEmpty && cs.all fun c => p c || c = '_'

/-- Whether a character is a digit up to the given one. -/
def isDigitUpTo (last c : Char) : Bool := '0' ≤ c && c ≤ last

/-- Whether a text is a digit followed by digits and underscores. -/
def isNumeral (first : Char) : List Char → Bool
  | [] => false
  | c :: cs => first ≤ c && c ≤ '9' && cs.all fun c => c.isDigit || c = '_'

/-- Whether a text is a digit of base sixty. -/
def isSixtieth : List Char → Bool
  | [a] => a.isDigit
  | [a, b] => isDigitUpTo '5' a && b.isDigit
  | _ => false

/-- Whether a text without its sign writes an integer. -/
def isUnsignedInteger (cs : List Char) : Bool :=
  match cs with
  | ['0'] => true
  | '0' :: 'b' :: ds => isRun (isDigitUpTo '1') ds
  | '0' :: 'x' :: ds =>
      isRun (fun c => c.isDigit || ('a' ≤ c && c ≤ 'f') || ('A' ≤ c && c ≤ 'F')) ds
  | '0' :: ds => isRun (isDigitUpTo '7') ds
  | cs => match cutAtColons cs with
    | [] => false
    | part :: parts => isNumeral '1' part && parts.all isSixtieth

/-- Whether a plain text writes an integer. -/
def isInteger (cs : List Char) : Bool := isUnsignedInteger (Decimal.takeSign cs).2

/-- Whether a text is empty or an exponent with its sign. -/
def isExponent : List Char → Bool
  | [] => true
  | e :: s :: ds =>
      (e = 'e' || e = 'E') && (s = '-' || s = '+') && !ds.isEmpty && ds.all Char.isDigit
  | _ => false

/-- Whether a text starts with digits and underscores and goes on with an exponent, if at all. -/
def isFraction (cs : List Char) : Bool := isExponent (cs.dropWhile fun c => c.isDigit || c = '_')

/-- Whether a text is a numeral, a point, and perhaps a fraction and an exponent. -/
def isDecimal (cs : List Char) : Bool :=
  let whole := cs.takeWhile (· ≠ '.')
  match cs.dropWhile (· ≠ '.') with
  | '.' :: rest => isNumeral '0' whole && isFraction rest
  | _ => false

/-- Whether a text is a number in base sixty with a point. -/
def isSexagesimal (cs : List Char) : Bool :=
  let whole := cs.takeWhile (· ≠ '.')
  match cs.dropWhile (· ≠ '.') with
  | '.' :: rest => (match cutAtColons whole with
    | part :: parts => !parts.isEmpty && isNumeral '0' part && parts.all isSixtieth
    | [] => false) && rest.all fun c => c.isDigit || c = '_'
  | _ => false

/-- Whether a plain text writes a number that is not an integer. -/
def isReal (cs : List Char) : Bool :=
  let unsigned := (Decimal.takeSign cs).2
  isDecimal unsigned || isSexagesimal unsigned ||
    [".inf", ".Inf", ".INF"].contains (String.ofList unsigned) ||
    [".nan", ".NaN", ".NAN"].contains (String.ofList cs) ||
    (match cs with
      | '.' :: d :: rest => d.isDigit && isFraction rest
      | _ => false)

/-! ### Values -/

/-- A number in base sixty, from its parts. -/
def sexagesimal (parts : List Int) : Int := parts.foldl (fun n d => n * 60 + d) 0

/-- Drops a mark of the base. -/
def dropMark (marks : List (List Char)) (cs : List Char) : List Char :=
  if marks.contains (cs.take 2) then cs.drop 2 else cs

/-- The integer that a text writes in a base, with blanks around, a sign and a mark of the
base. -/
def readWhole (base : Nat) (cs : List Char) : Except Fault Int :=
  let (negative, cs) := Decimal.takeSign (Text.trimBlanks (cs.map Text.plainDigit))
  let marks := match base with
    | 2 => [['0', 'b'], ['0', 'B']]
    | 8 => [['0', 'o'], ['0', 'O']]
    | 16 => [['0', 'x'], ['0', 'X']]
    | _ => []
  let digits := dropMark marks cs
  let isDigit := fun (c : Char) => (c.isDigit || ('a' ≤ c.toLower && c.toLower ≤ 'f')) &&
    Decimal.digitsValue base [c] < base
  if digits.isEmpty || !digits.all isDigit then .error .scalarNotNumeric
  else
    let n : Int := Decimal.digitsValue base digits
    .ok (if negative then -n else n)

/-- The text of a number without underscores: whether it starts with a minus, and what follows
the sign. -/
def takeNumberSign (cs : List Char) : Except Fault (Bool × List Char) :=
  match cs.filter (· ≠ '_') with
  | [] => .error .scalarEmpty
  | cs => .ok (Decimal.takeSign cs)

/-- The integer that a text writes without its sign. -/
def readUnsigned (cs : List Char) : Except Fault Int :=
  match cs with
  | [] => .error .scalarEmpty
  | ['0'] => .ok 0
  | '0' :: 'b' :: ds => readWhole 2 ds
  | '0' :: 'x' :: ds => readWhole 16 ds
  | '0' :: ds => readWhole 8 ('0' :: ds)
  | cs => do return sexagesimal (← (cutAtColons cs).mapM (readWhole 10))

/-- The integer that a text writes. -/
def readInteger (cs : List Char) : Except Fault Int := do
  let (negative, cs) ← takeNumberSign cs
  let n ← readUnsigned cs
  return if negative then -n else n

/-- The double that a text writes. -/
def readFloat (cs : List Char) : Except Fault Float :=
  match Decimal.read? (String.ofList cs) with
  | some x => .ok x
  | none => .error .scalarNotNumeric

/-- Adds up the parts of a number in base sixty, the last part first. -/
def addSixtieths : Float → Int → List Float → Except ArithmeticFault Float
  | sum, _, [] => .ok sum
  | sum, weight, d :: ds => do
      addSixtieths (sum + d * (← Scalar.ofInt weight)) (weight * 60) ds

/-- The double that a text writes without its sign, in lower case. -/
def readMagnitude (cs : List Char) : Except Fault Float :=
  match String.ofList cs with
  | ".inf" => .ok Double.infinity
  | ".nan" => .ok Double.undefined
  | _ =>
      if cs.contains ':' then do
        let parts ← (cutAtColons cs).mapM readFloat
        addSixtieths 0 1 parts.reverse
      else readFloat cs

/-- The double that a text writes. -/
def readNumber (cs : List Char) : Except Fault Float := do
  let (negative, cs) ← takeNumberSign (cs.map Char.toLower)
  let x ← readMagnitude cs
  return if negative then -x else x

/-- What a plain text stands for. -/
def plainValue (s : String) : Except Fault Datum :=
  if nullWords.contains s then .ok .null
  else if yesWords.contains s then .ok (.flag true)
  else if noWords.contains s then .ok (.flag false)
  else if isReal s.toList then do return .real (← readNumber s.toList)
  else if isInteger s.toList then do return .whole (← readInteger s.toList)
  else .ok (.text s)

/-- What a scalar stands for. -/
def value (tag? : Option Tag) ( plain : Bool) (s : String) : Except Fault Datum :=
  match tag? with
  | none => if plain then plainValue s else .ok (.text s)
  | some .open => plainValue s
  | some .text => .ok (.text s)
  | some .integer => do return .whole (← readInteger s.toList)
  | some .number => do return .real (← readNumber s.toList)
  | some .other => .error .documentMalformed

end Corridor.Yaml.Scalar
