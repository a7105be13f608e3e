import Corridor.Number.Decimal
import Corridor.Number.Quantity
import Corridor.Text.Quoted

/-!
# Data

The untyped values that settings, page bounds and scores may be given as: what a configuration
document holds. Which of them a place accepts is for that place to say; here is how they are
shown in messages, and when two of them are the same key. Integers are shown in full: a limit on
how many digits are written is not modelled.
-/

namespace Corridor

/-- An untyped value. -/
inductive Datum where
  | null
  | flag (value : Bool)
  | whole (value : Int)
  | real (value : Float)
  | text (value : String)
  | list (items : List Datum)
  | map (entries : List (Datum × Datum))
deriving Inhabited

namespace Datum

mutual

/-- How a value is shown in a message: texts are quoted. -/
def display : Datum → String
  | null => "None"
  | flag value => if value then "True" else "False"
  | whole value => toString value
  | real value => Decimal.shortest value
  | text value => Text.quoted value
  | list items => "[" ++ displayItems items ++ "]"
  | map entries => "\x7b" ++ displayEntries entries ++ "\x7d"

/-- The items of a list, separated by commas. -/
def displayItems : List Datum → String
  | [] => ""
  | d :: ds => display d ++ (if ds.isEmpty then "" else ", ") ++ displayItems ds

/-- The entries of a map, separated by commas. -/
def displayEntries : List (Datum × Datum) → String
  | [] => ""
  | (k, v) :: es =>
      display k ++ ": " ++ display v ++ (if es.isEmpty then "" else ", ") ++ displayEntries es

end

/-- A value as plain text: texts are not quoted. -/
def plain : Datum → String
  | text value => value
  | d => d.display

/-- The name of the kind of a value, as messages give it. -/
def kindName : Datum → String
  | null => "NoneType"
  | flag _ => "bool"
  | whole _ => "int"
  | real _ => "float"
  | text _ => "str"
  | list _ => "list"
  | map _ => "dict"

/-- The value as a number, a flag counting as zero or one. -/
def quantity? : Datum → Option Quantity
  | flag value => some (.whole value.toNat)
  | whole value => some (.whole value)
  | real value => some (.real value)
  | _ => none

/-- Whether a value can be a key of a map: lists and maps cannot. -/
def isKey : Datum → Bool
  | list _ | map _ => false
  | _ => true

/-- Whether two values are the same key. Numbers are the same key when they are equal, whatever
their kind. -/
def sameKey : Datum → Datum → Bool
  | null, null => true
  | text s, text t => s == t
  | a, b => match a.quantity?, b.quantity? with
    | some p, some q => p.sameNumber q
    | _, _ => false

/-- Sets a key in a list of entries: a key that is there keeps its place. -/
def setEntry (k v : Datum) : List (Datum × Datum) → List (Datum × Datum)
  | [] => [(k, v)]
  | (k', v') :: es => if k'.sameKey k then (k', v) :: es else (k', v') :: setEntry k v es

/-- The map of a list of entries, of which a later one of the same key wins; `none` if a key
cannot be one. -/
def ofEntries? (es : List (Datum × Datum)) : Option Datum :=
  if es.all fun e => e.1.isKey then some (map (es.foldl (fun m e => setEntry e.1 e.2 m) []))
  else none

/-- Whether a value counts as absent: null, false, zero, and the empty text, list and map. -/
def isVoid : Datum → Bool
  | null => true
  | flag value => !value
  | whole value => value == 0
  | real value => value == 0
  | text value => value.isEmpty
  | list items => items.isEmpty
  | map entries => entries.isEmpty

end Datum

end Corridor
