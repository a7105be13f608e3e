import Corridor.Fault
import Corridor.Number.Reading

/-!
# Data as Numbers

When an untyped value stands for a double, and what it is multiplied by a count.
-/

namespace Corridor.Datum

/-- The double that a value stands for: numbers are converted and texts are read. -/
def toFloat : Datum → Except Fault Float
  | text s => match Decimal.read? s with
    | some x => .ok x
    | none => .error (.textNotNumeric s)
  | d => match d.quantity? with
    | some q => q.toFloat.mapError .arithmetic
    | none => .error (.notNumeric d.kindName)

/-- The double that a value stands for in a column of numbers, where null is not a number. -/
def toColumnFloat : Datum → Except Fault Float
  | null => .ok Double.undefined
  | d => d.toFloat

/-- The number that a value is. -/
def toQuantity (d : Datum) : Except Fault Quantity :=
  match d.quantity? with
  | some q => .ok q
  | none => .error .notComparable

/-- A value taken `count` times: numbers are multiplied, texts and lists repeated. -/
def times (count : Nat) : Datum → Except Fault Datum
  | flag value => .ok (whole (count * value.toNat))
  | whole value => .ok (whole (count * value))
  | real value => do return real ((← (Scalar.ofInt count : Except _ Float)) * value)
  | text value => .ok (text (String.join (List.replicate count value)))
  | list items => .ok (list (List.replicate count items).flatten)
  | d => .error (.notMultipliable d.kindName)

end Corridor.Datum
