import Corridor.Datum.Basic
import Corridor.Number.Fault

/-!
# Faults

Everything that can go wrong in a run, one constructor per cause. A fault belongs to a `Kind`;
kinds form a hierarchy, and what is caught and logged is decided by it. Only the faults that
this library raises on grounds of its own, or that a scorer raises with a text, carry a message;
`Fault.text` is what a log record shows for any of them.
-/

namespace Corridor

/-- A kind of faults. Kinds are told apart by their names, and a scorer may bring kinds of its
own. -/
structure Kind where
  /-- The name in answers and log records. -/
  name : String
  /-- The names of the kinds that it belongs to besides itself. -/
  ancestors : List String
deriving Repr, DecidableEq, Inhabited

namespace Kind

/-- A kind that belongs to others and to all that they belong to. -/
def within (name : String) (parents : List Kind) : Kind :=
  ⟨name, (parents.flatMap fun k => k.name :: k.ancestors).eraseDups⟩

def exception : Kind := ⟨"Exception", []⟩
def value : Kind := within "ValueError" [exception]
def type : Kind := within "TypeError" [exception]
def lookup : Kind := within "LookupError" [exception]
def key : Kind := within "KeyError" [lookup]
def index : Kind := within "IndexError" [lookup]
def arithmetic : Kind := within "ArithmeticError" [exception]
def zeroDivision : Kind := within "ZeroDivisionError" [arithmetic]
def overflow : Kind := within "OverflowError" [arithmetic]
def runtime : Kind := within "RuntimeError" [exception]
def ranking : Kind := within "RankingError" [exception]
def settings : Kind := within "RankingConfigError" [value]
def incompatibleMerge : Kind := within "IncompatibleMergeError" [ranking, value]
def system : Kind := within "OSError" [exception]
def missingFile : Kind := within "FileNotFoundError" [system]
def markup : Kind := within "YAMLError" [exception]

/-- The kinds that are known here. -/
def all : List Kind :=
  [exception, value, type, lookup, key, index, arithmetic, zeroDivision, overflow, runtime,
   ranking, settings, incompatibleMerge, system, missingFile, markup]

/-- The known kind of a given name. -/
def ofName? (s : String) : Option Kind := all.find? fun k => k.name == s

/-- Whether a fault of the first kind is one of the second kind. -/
def isA (k other : Kind) : Bool := k.name = other.name || k.ancestors.contains other.name

end Kind

/-- What went wrong. -/
inductive Fault where
  /-- A computation on numbers has no answer. -/
  | arithmetic (cause : ArithmeticFault)
  /-- A scorer, or other guarded work, failed with a kind and a text of its own. The kind may be
  any. -/
  | raised (kind : Kind) (text : String)
  /-- A number of divisions that is not a positive integer. -/
  | divisionsNotPositive (got : Datum)
  /-- An envelope given by bounds that are not four. -/
  | boundsNotFour
  /-- An envelope that is not given. -/
  | envelopeMissing
  | cornersSwapped (minLon minLat maxLon maxLat : Float)
  | envelopeEmpty
  | coordinateCounts (lons lats : Nat)
  | coordinateNotFinite
  /-- Consecutive legs of a track do not share a ping. -/
  | legsNotContiguous
  /-- Times that are missing, or of which only one has an offset, are compared. -/
  | timesNotComparable
  /-- A time leaves the years 1 to 9999. -/
  | timeOutOfRange
  | columnsMissing (names : List String)
  /-- Columns of different lengths. -/
  | columnsUneven
  | gridsDiffer (left right : Int × Int)
  /-- No score has the given name. -/
  | scoreUnknown
  | pagingNegative (field : String) (got : Datum)
  /-- Values that have no order are compared, or a value is no page bound. -/
  | notComparable
  /-- A text that does not denote a number. -/
  | textNotNumeric (text : String)
  /-- A value that is neither a number nor a text. -/
  | notNumeric (kindName : String)
  /-- Values that cannot be multiplied. -/
  | notMultipliable (kindName : String)
  /-- A list or map where a key is needed. -/
  | keyNotHashable (kindName : String)
  | fieldNotInteger (field : String) (got : Datum)
  | fieldNotPositive (field : String) (got : Datum)
  | fieldNegative (field : String) (got : Datum)
  /-- A limit that is no number. -/
  | fieldNotNumeric (field kindName : String)
  | sortFieldUnknown (names : List String) (got : Datum)
  /-- An override of a field that does not exist. -/
  | overrideUnknown (field : String)
  | sectionNotMap (kindName : String)
  | keysUnknown (names : List String)
  /-- Keys of the settings that are no text; it tells the first of them. -/
  | keyNotText (kindName : String)
  | documentNotMap (path : String)
  | fileMissing (path : String)
  /-- A document that cannot be parsed. -/
  | documentMalformed
  /-- An escape in a document that is beyond the last character code. -/
  | escapeTooLarge
  /-- A scalar whose tag promises a number it does not write. -/
  | scalarNotNumeric
  /-- A scalar that is empty where its tag promises a number. -/
  | scalarEmpty
deriving Inhabited

namespace ArithmeticFault

/-- The kind of an arithmetic fault. -/
def kind : ArithmeticFault → Kind
  | integerTooLarge | quotientTooLarge | partialTooLarge | exponentialRange => .overflow
  | opposedInfinities | logarithmDomain => .value
  | zeroDivisor => .zeroDivision

/-- What a log record shows for an arithmetic fault. -/
def text : ArithmeticFault → String
  | integerTooLarge => "int too large to convert to float"
  | quotientTooLarge => "the quotient is too large"
  | partialTooLarge => "a partial sum is too large"
  | exponentialRange => "the exponential is too large"
  | opposedInfinities => "both infinities are summed"
  | logarithmDomain => "the logarithm needs a positive number"
  | zeroDivisor => "division by zero"

end ArithmeticFault

namespace Fault

/-- The kind of a fault. -/
def kind : Fault → Kind
  | arithmetic cause => cause.kind
  | raised k _ => k
  | divisionsNotPositive _ | boundsNotFour | cornersSwapped .. | envelopeEmpty
  | coordinateCounts .. | coordinateNotFinite | legsNotContiguous | timeOutOfRange
  | columnsMissing _ | columnsUneven | scoreUnknown | pagingNegative .. | textNotNumeric _
  | escapeTooLarge | scalarNotNumeric => .value
  | envelopeMissing | timesNotComparable | notComparable | notNumeric _ | notMultipliable _
  | keyNotHashable _ | fieldNotNumeric .. | overrideUnknown _ | keyNotText _ => .type
  | gridsDiffer .. => .incompatibleMerge
  | fieldNotInteger .. | fieldNotPositive .. | fieldNegative .. | sortFieldUnknown ..
  | sectionNotMap _ | keysUnknown _ | documentNotMap _ => .settings
  | fileMissing _ => .missingFile
  | documentMalformed => .markup
  | scalarEmpty => .index

/-- A pair of integers in a message, both in full, however many digits they have. -/
def pairText (p : Int × Int) : String := "(" ++ toString p.1 ++ ", " ++ toString p.2 ++ ")"

/-- A corner in a message. -/
def cornerText (lon lat : Float) : String :=
  "(" ++ Decimal.shortest lon ++ ", " ++ Decimal.shortest lat ++ ")"

/-- The words of a fault, for the faults that have words of their own. -/
def message? : Fault → Option String
  | raised k text => some (if k.isA .key then Text.quoted text else text)
  | divisionsNotPositive got =>
      some ("divisions must be a positive integer (got " ++ got.display ++ ").")
  | cornersSwapped minLon minLat maxLon maxLat =>
      some ("envelope min corner " ++ cornerText minLon minLat ++ " exceeds max corner " ++
        cornerText maxLon maxLat ++ ".")
  | envelopeEmpty => some "envelope geometry is empty."
  | coordinateCounts lons lats =>
      some ("lons and lats must have the same shape ((" ++ toString lons ++ ",) != (" ++
        toString lats ++ ",)).")
  | coordinateNotFinite =>
      some "lons and lats must be finite (NaN or infinite coordinate given)."
  | legsNotContiguous => some "CoordSequence pairs must be chronologically contiguous."
  | columnsMissing names =>
      some ("PingCollection frame missing required columns: " ++ ", ".intercalate names)
  | gridsDiffer left right =>
      some ("Cannot merge ranking values from different grids: (grid_divisions, n_tube_cells) " ++
        pairText left ++ " != " ++ pairText right)
  | pagingNegative field got | fieldNegative field got =>
      some (field ++ " must not be negative (got " ++ got.display ++ ")")
  | fieldNotInteger field got =>
      some (field ++ " must be an integer (got " ++ got.display ++ ")")
  | fieldNotPositive field got =>
      some (field ++ " must be positive and finite (got " ++ got.display ++ ")")
  | sortFieldUnknown names got =>
      some ("sort_field must be one of " ++ ", ".intercalate names ++ " (got " ++
        got.display ++ ")")
  | sectionNotMap name => some ("ranking section must be a mapping, got " ++ name)
  | keysUnknown names => some ("Unknown ranking config keys: " ++ ", ".intercalate names)
  | documentNotMap path => some (path ++ " must contain a mapping at the top level")
  | fileMissing path => some ("ranking config not found at " ++ path)
  | _ => none

/-- What a log record shows for a fault. -/
def text (f : Fault) : String :=
  match f with
  | arithmetic cause => cause.text
  | textNotNumeric s => "could not convert string to float: " ++ Text.quoted s
  | notNumeric name => "float() argument must be a string or a real number, not " ++
      Text.quoted name
  | notMultipliable name => "unsupported operand type(s) for *: " ++ Text.quoted "int" ++
      " and " ++ Text.quoted name
  | f => f.message?.getD ""

end Fault

instance : MonadLift (Except ArithmeticFault) (Except Fault) where
  monadLift r := r.mapError .arithmetic

end Corridor
