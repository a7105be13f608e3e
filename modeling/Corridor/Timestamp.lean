import Corridor.Fault

/-!
# Timestamps

A time of observation, to the microsecond, in the proleptic Gregorian calendar. It is *zoned*
when it tells its offset from UTC and *naive* when it does not; the two do not compare with each
other. Naive times compare and subtract as they are written, and so do zoned times of one region,
though its clocks may have been set forward or back between the two. All other zoned times compare
and subtract as the instants they denote.

So the comparison of zoned times need not be transitive: two times of one region compare as they
are written, and each of them compares with a time of another zone by its instant.
-/

namespace Corridor

/-- What a time tells of its offset from UTC, which is given in microseconds. -/
inductive Zone where
  /-- The offset and nothing else. -/
  | fixed (offset : Int)
  /-- A region, and the offset that its clocks have at the time. What it has at other times is not
  told. -/
  | region (name : String) (offset : Int)
deriving Repr, DecidableEq, Inhabited

namespace Zone

/-- Microseconds by which the clocks are ahead of UTC. -/
def offset : Zone → Int
  | fixed offset => offset
  | region _ offset => offset

/-- Whether two times have the clocks of one region. -/
def sameRegion : Zone → Zone → Bool
  | region a _, region b _ => a = b
  | _, _ => false

end Zone

/-- A time of observation. -/
structure Timestamp where
  /-- Microseconds of the written time since the start of the year 1. -/
  written : Int
  zone? : Option Zone
deriving Repr, DecidableEq, Inhabited

/-! ### The calendar -/

namespace Calendar

/-- Sums start from the zero of the core library, whatever other zeros are in scope. -/
local instance (priority := high) zeroNat : Zero Nat := Zero.ofOfNat0

/-- Days before a year, counted from the start of the year 1. -/
def daysBeforeYear (year : Nat) : Nat :=
  let y := year - 1
  y * 365 + y / 4 - y / 100 + y / 400

/-- Whether a year has a 29 February. -/
def isLeap (year : Nat) : Bool := year % 4 = 0 && (year % 100 ≠ 0 || year % 400 = 0)

/-- The days of the months of a year. -/
def monthLengths (year : Nat) : List Nat :=
  [31, if isLeap year then 29 else 28, 31, 30, 31, 30, 31, 31, 30, 31, 30, 31]

/-- Days of a date since 1 January of the year 1. -/
def dayNumber (year month day : Nat) : Nat :=
  daysBeforeYear year + ((monthLengths year).take (month - 1)).sum + (day - 1)

/-- The month and the day of the month of a day counted from the start of a year. -/
def monthDay : Nat → List Nat → Nat × Nat
  | day, [] => (0, day)
  | day, m :: ms =>
      if day < m then (1, day + 1)
      else
        let (month, d) := monthDay (day - m) ms
        (month + 1, d)

/-- The year, month and day of a day number. The first guess of the year is never too early. -/
def dateOf (number : Nat) : Nat × Nat × Nat :=
  let guess := number / 365 + 1
  let year := ((List.range 8).map (guess - ·)).find? (fun y => daysBeforeYear y ≤ number)
  let year := year.getD 1
  (year, monthDay (number - daysBeforeYear year) (monthLengths year))

end Calendar

namespace Timestamp

/-- Powers are taken as in the core library, whatever other powers are in scope. -/
local instance (priority := high) powNat : Pow Nat Nat := instPowNat

/-- Microseconds in a day. -/
def microsPerDay : Nat := 86400 * 1000000

/-- The start of the year 10000, which no time reaches. -/
def bound : Int := Calendar.daysBeforeYear 10000 * microsPerDay

/-- Whether a timestamp tells its offset. -/
def isZoned (t : Timestamp) : Bool := t.zone?.isSome

/-- Microseconds by which the written time is ahead of UTC, a naive time being taken as it. -/
def offset (t : Timestamp) : Int := match t.zone? with
  | some z => z.offset
  | none => 0

/-- The time in UTC. -/
def utcMicros (t : Timestamp) : Int := t.written - t.offset

/-- The same instant written in UTC. -/
def toUtc (t : Timestamp) : Timestamp := ⟨t.utcMicros, some (.fixed 0)⟩

/-- Whether the written time lies in the years 1 to 9999. -/
def inRange (t : Timestamp) : Bool := 0 ≤ t.written && t.written < bound

/-- Whether two timestamps compare. -/
def comparable (s t : Timestamp) : Bool := s.isZoned == t.isZoned

/-- Whether two times are written by the clocks of one region. -/
def sameRegion (s t : Timestamp) : Bool := match s.zone?, t.zone? with
  | some y, some z => y.sameRegion z
  | _, _ => false

/-- Microseconds from the first time to the second: as they are written if they are of one region,
and between the instants otherwise. -/
def microsTo (s t : Timestamp) : Int :=
  if s.sameRegion t then t.written - s.written else t.utcMicros - s.utcMicros

/-- Microseconds from the first time to the second, if they compare. -/
def microsBetween (s t : Timestamp) : Except Fault Int :=
  if s.comparable t then .ok (s.microsTo t) else .error .timesNotComparable

/-- The distance of two times in seconds, rounded once. -/
def secondsApart (s t : Timestamp) : Except Fault Float := do
  return Double.ofRatio (← s.microsBetween t).natAbs 1000000

/-! ### Texts -/

/-- A number with at least `width` digits. -/
def padded (width n : Nat) : String :=
  let ds := Nat.toDigits 10 n
  String.ofList (List.replicate (width - ds.length) '0' ++ ds)

/-- A fraction of a second in microseconds, unless it is zero. -/
def fractionText (micros : Nat) : String :=
  if micros = 0 then "" else "." ++ padded 6 micros

/-- An offset with its sign, to the second or the microsecond if it needs to. -/
def offsetText (offset : Int) : String :=
  let n := offset.natAbs / 1000000
  let micros := offset.natAbs % 1000000
  (if offset < 0 then "-" else "+") ++ padded 2 (n / 3600) ++ ":" ++ padded 2 (n / 60 % 60) ++
    (if n % 60 = 0 && micros = 0 then "" else ":" ++ padded 2 (n % 60) ++ fractionText micros)

/-- Date, time of day with microseconds unless they are zero, and the offset if it is told. -/
def display (t : Timestamp) : String :=
  let day := (t.written / microsPerDay).toNat
  let micros := (t.written % microsPerDay).toNat
  let (year, month, dayOfMonth) := Calendar.dateOf day
  let seconds := micros / 1000000
  padded 4 year ++ "-" ++ padded 2 month ++ "-" ++ padded 2 dayOfMonth ++ "T" ++
    padded 2 (seconds / 3600) ++ ":" ++ padded 2 (seconds / 60 % 60) ++ ":" ++
    padded 2 (seconds % 60) ++ fractionText (micros % 1000000) ++
    (match t.zone? with
      | none => ""
      | some z => offsetText z.offset)

/-- The number that all of the given characters write. -/
def number? (cs : List Char) : Option Nat :=
  if !cs.isEmpty && cs.all Char.isDigit then
    some (cs.foldl (fun n c => n * 10 + (c.toNat - 48)) 0)
  else none

/-- Takes `width` digits. -/
def takeNumber (width : Nat) (cs : List Char) : Option (Nat × List Char) := do
  let n ← number? (cs.take width)
  if (cs.take width).length = width then some (n, cs.drop width) else none

/-- Takes one given character. -/
def takeMark (mark : Char) : List Char → Option (List Char)
  | c :: cs => if c = mark then some cs else none
  | [] => none

/-- Takes a fraction of a second of one to six digits, in microseconds. -/
def takeFraction : List Char → Option (Nat × List Char)
  | '.' :: cs => do
      let ds := cs.takeWhile Char.isDigit
      let n ← number? ds
      if ds.length ≤ 6 then some (n * 10 ^ (6 - ds.length), cs.drop ds.length) else none
  | cs => some (0, cs)

/-- Reads an offset of hours and minutes that takes the rest of a text. -/
def readZone : List Char → Option (Option Zone)
  | [] => some none
  | mark :: cs => do
      let (hours, cs) ← takeNumber 2 cs
      let cs ← takeMark ':' cs
      let (minutes, cs) ← takeNumber 2 cs
      let offset : Int := (hours * 3600 + minutes * 60) * 1000000
      match mark, cs with
      | '+', [] => some (some (.fixed offset))
      | '-', [] => some (some (.fixed (-offset)))
      | _, _ => none

/-- Reads a date, a time of day and perhaps an offset. -/
def parse? (s : String) : Option Timestamp := do
  let (year, cs) ← takeNumber 4 s.toList
  let cs ← takeMark '-' cs
  let (month, cs) ← takeNumber 2 cs
  let cs ← takeMark '-' cs
  let (day, cs) ← takeNumber 2 cs
  let cs ← takeMark 'T' cs
  let (hour, cs) ← takeNumber 2 cs
  let cs ← takeMark ':' cs
  let (minute, cs) ← takeNumber 2 cs
  let cs ← takeMark ':' cs
  let (second, cs) ← takeNumber 2 cs
  let (micros, cs) ← takeFraction cs
  let zone? ← readZone cs
  guard (1 ≤ year && 1 ≤ month && month ≤ 12 && 1 ≤ day &&
    day ≤ (Calendar.monthLengths year).getD (month - 1) 0 &&
    hour < 24 && minute < 60 && second < 60)
  let seconds := hour * 3600 + minute * 60 + second
  return ⟨Calendar.dayNumber year month day * microsPerDay + seconds * 1000000 + micros, zone?⟩

end Timestamp

end Corridor
