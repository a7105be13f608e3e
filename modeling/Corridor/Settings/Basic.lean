import Corridor.Datum.Number
import Corridor.Score
import Corridor.Tracklet

/-!
# Settings

The settings of a run: the limits of plausible motion, the divisions of the grid and of the
route, and the order and paging of the results. Settings are made from a draft, which gives each
field a value of any kind; `Settings.ofDraft` accepts the draft or tells the first rule that it
breaks. Rules are tried in a fixed order, so of two faults in one draft it is always the same
one that is told.
-/

namespace Corridor

namespace Settings

/-- The fields of the settings. -/
inductive Field where
  | maxGap
  | maxSpeed
  | maxTurnRate
  | gridDivisions
  | routeDivisions
  | skip
  | maxResults
  | sortField
deriving Repr, DecidableEq, Inhabited

namespace Field

/-- All fields. -/
def all : List Field :=
  [maxGap, maxSpeed, maxTurnRate, gridDivisions, routeDivisions, skip, maxResults, sortField]

/-- The name of a field. -/
def name : Field → String
  | maxGap => "max_time_between_pings"
  | maxSpeed => "max_speed"
  | maxTurnRate => "max_turn_rate"
  | gridDivisions => "grid_divisions"
  | routeDivisions => "route_divisions"
  | skip => "skip_results"
  | maxResults => "max_results"
  | sortField => "sort_field"

/-- The field of a given name. -/
def ofName? (name : String) : Option Field := all.find? fun f => f.name == name

/-- The value of a field unless another one is given. -/
def preset : Field → Datum
  | maxGap => .real 3600
  | maxSpeed => .real 1000
  | maxTurnRate => .real 10
  | gridDivisions => .whole 100
  | routeDivisions => .whole 100
  | skip => .whole 0
  | maxResults => .whole 1000
  | sortField => .text "combined_score"

end Field

/-- A value of any kind for each field. -/
abbrev Draft := Field → Datum

/-- A draft with another value for one field. -/
def Draft.set (d : Draft) (field : Field) (value : Datum) : Draft :=
  fun f => if f = field then value else d f

/-- A limit: a number, or the flag for yes, which counts as one. -/
inductive Limit where
  | yes
  | number (amount : Quantity)
deriving Inhabited

namespace Limit

/-- The number that a limit stands for. -/
def quantity : Limit → Quantity
  | yes => .whole 1
  | number q => q

/-- A limit as it was given. -/
def datum : Limit → Datum
  | yes => .flag true
  | number (.whole n) => .whole n
  | number (.real x) => .real x

end Limit

end Settings

/-- The settings of a run. -/
structure Settings where
  /-- Seconds between pings of one tracklet. -/
  maxGap : Settings.Limit
  /-- Metres per second. -/
  maxSpeed : Settings.Limit
  /-- Degrees per second. -/
  maxTurnRate : Settings.Limit
  gridDivisions : Nat
  routeDivisions : Nat
  /-- How many results are left out at the front. -/
  skip : Nat
  maxResults : Nat
  sortField : Score
deriving Inhabited

namespace Settings

/-- The limits of plausible motion. -/
def motionLimits (s : Settings) : MotionLimits :=
  ⟨s.maxGap.quantity, s.maxSpeed.quantity, s.maxTurnRate.quantity⟩

/-- The value of a field. -/
def get (s : Settings) : Field → Datum
  | .maxGap => s.maxGap.datum
  | .maxSpeed => s.maxSpeed.datum
  | .maxTurnRate => s.maxTurnRate.datum
  | .gridDivisions => .whole s.gridDivisions
  | .routeDivisions => .whole s.routeDivisions
  | .skip => .whole s.skip
  | .maxResults => .whole s.maxResults
  | .sortField => .text s.sortField.name

/-! ### Rules -/

/-- The value of a field that has to be an integer. -/
def wholeOf (d : Draft) (f : Field) : Except Fault Int :=
  match d f with
  | .whole n => .ok n
  | v => .error (.fieldNotInteger f.name v)

/-- Whether a quantity is a finite double, or an integer in their range, and positive. -/
def isPositiveFinite (q : Quantity) : Except Fault Bool := do
  let x : Float ← q.toFloat
  return x.isFinite && q.isPositive

/-- The value of a field that has to be positive and finite. -/
def limitOf (d : Draft) (f : Field) : Except Fault Limit := do
  match (d f).quantity? with
  | none => .error (.fieldNotNumeric f.name (d f).kindName)
  | some q =>
      if ← isPositiveFinite q then
        return match d f with
          | .flag _ => .yes
          | _ => .number q
      else .error (.fieldNotPositive f.name (d f))

/-- An integer that has to be positive and in the range of doubles. -/
def countOf (f : Field) (n : Int) : Except Fault Nat := do
  if ← isPositiveFinite (.whole n) then return n.toNat
  else .error (.fieldNotPositive f.name (.whole n))

/-- An integer that must not be negative. -/
def naturalOf (f : Field) (n : Int) : Except Fault Nat :=
  if n < 0 then .error (.fieldNegative f.name (.whole n)) else .ok n.toNat

/-- The score that results are sorted by. -/
def scoreOf (v : Datum) : Except Fault Score :=
  if !v.isKey then .error (.keyNotHashable v.kindName)
  else match Score.ofDatum v with
    | .ok s => .ok s
    | .error _ => .error (.sortFieldUnknown Score.sortedNames v)

/-- The settings of a draft. Integers are told from other values first; then the limits and
divisions have to be positive, the paging must not be negative, and the score has to exist. -/
def ofDraft (d : Draft) : Except Fault Settings := do
  let grid ← wholeOf d .gridDivisions
  let route ← wholeOf d .routeDivisions
  let skip ← wholeOf d .skip
  let maxResults ← wholeOf d .maxResults
  let maxGap ← limitOf d .maxGap
  let maxSpeed ← limitOf d .maxSpeed
  let maxTurnRate ← limitOf d .maxTurnRate
  let gridDivisions ← countOf .gridDivisions grid
  let routeDivisions ← countOf .routeDivisions route
  let skip ← naturalOf .skip skip
  let maxResults ← naturalOf .maxResults maxResults
  let sortField ← scoreOf (d .sortField)
  return { maxGap, maxSpeed, maxTurnRate, gridDivisions, routeDivisions, skip, maxResults,
           sortField }

/-- The settings in which no field is given. -/
def preset : Settings where
  maxGap := .number (.real 3600)
  maxSpeed := .number (.real 1000)
  maxTurnRate := .number (.real 10)
  gridDivisions := 100
  routeDivisions := 100
  skip := 0
  maxResults := 1000
  sortField := .combined

/-! ### Changes -/

/-- Sets fields by name. -/
def Draft.setNamed (d : Draft) : List (String × Datum) → Except Fault Draft
  | [] => .ok d
  | (name, v) :: es => match Field.ofName? name with
    | some f => (d.set f v).setNamed es
    | none => .error (.overrideUnknown name)

/-- The settings with other values for some fields. -/
def override (s : Settings) (changes : List (String × Datum)) : Except Fault Settings := do
  ofDraft (← Draft.setNamed s.get changes)

/-- The text of a key of a section. -/
def keyText : Datum → Except Fault String
  | .text s => .ok s
  | d => .error (.keyNotText d.kindName)

/-- The settings that a section gives: nothing, or a map from the names of fields. Names of no
field are told together, in alphabetical order. -/
def ofSection : Datum → Except Fault Settings
  | .null => .ok preset
  | .map es => do
      let unknown := es.filter fun e => match e.1 with
        | .text s => (Field.ofName? s).isNone
        | _ => true
      let names ← unknown.mapM fun e => keyText e.1
      if !names.isEmpty then .error (.keysUnknown (names.mergeSort fun a b => a ≤ b))
      let changes ← es.mapM fun e => do return (← keyText e.1, e.2)
      ofDraft (← Draft.setNamed Field.preset changes)
  | d => .error (.sectionNotMap d.kindName)

/-- The settings of a document, which is empty or a map: those of its section `ranking`. -/
def ofDocument (path : String) (d : Datum) : Except Fault Settings :=
  if d.isVoid then .ok preset
  else match d with
    | .map es =>
        ofSection (((es.find? fun e => e.1.sameKey (.text "ranking")).map (·.2)).getD .null)
    | _ => .error (.documentNotMap path)

end Settings

end Corridor
