import Corridor.Geodesic.Series
import Corridor.Shape

/-!
# Distance and Heading

The shortest way between two positions on the ellipsoid: its length and the direction in which
it leaves the first position.

Both positions are brought into a canonical order (the first one farthest from the equator and
south of it, the second to its east). Ways along a meridian or the equator have closed forms.
For the others the direction at the first position is the root of a function of one variable,
the longitude reached at the latitude of the second position; it is found by Newton's method
within a bracket, from a starting direction taken on a sphere or, close to the antipode, from
the astroid that the geodesics envelop there.
-/

namespace Corridor.Geodesic

open Double

/-- The length of a way in metres, and its heading at the start in degrees. -/
structure Course where
  distance : Float
  heading : Float
deriving Inhabited

/-! ### Tolerances -/

/-- The distance from one to the next double. -/
def epsilon : Float := Float.ofBits 0x3CB0000000000000

/-- The root of the least normal double, which stands for the cosine of the latitude of a
pole. -/
def tiny : Float := Float.ofBits 0x2000000000000000

/-- The root of `epsilon`. -/
def rootEpsilon : Float := Float.sqrt epsilon

/-- Below this angle a short way needs no iteration. -/
def shortWayBound : Float :=
  0.1 * rootEpsilon /
    Float.sqrt (Scalar.larger 0.001 flattening * Scalar.smaller 1 (1 - flattening / 2) / 2)

/-- How many steps of Newton's method are tried before the bracket is halved only. -/
def newtonSteps : Nat := 20

/-- How many steps are taken at most. -/
def maxSteps : Nat := newtonSteps + 53 + 10

/-! ### Ways between reduced latitudes -/

/-- A reduced latitude, and the factor that belongs to it in the reduced length. -/
structure ReducedLatitude where
  angle : Angle
  factor : Float
deriving Inhabited

/-- The angle whose tangent is `cos b` times the tangent of `a`, towards `b`. -/
def arcAngle (a b : Angle) : Float :=
  Float.atan2 (Scalar.larger 0 (a.cos * b.sin - a.sin * b.cos) + 0) (a.cos * b.cos + a.sin * b.sin)

/-- The length of an arc, and its reduced length, both in polar radii. -/
def arcLengths (eps arc : Float) (x y : Angle) (dn₁ dn₂ : Float) : Float × Float :=
  let a₁ := distanceMean eps
  let a₂ := reducedMean eps
  let m := a₁ - a₂
  let b₁ := sineSeriesBetween x y (distanceSeries eps)
  let b₂ := sineSeriesBetween x y (reducedSeries eps)
  let j := m * arc + ((1 + a₁) * b₁ - (1 + a₂) * b₂)
  ((1 + a₁) * (arc + b₁),
    dn₂ * (x.cos * y.sin) - dn₁ * (x.sin * y.cos) - x.cos * y.cos * j)

/-- The reduced length of an arc alone, its two series taken together. -/
def arcReducedLength (eps arc : Float) (x y : Angle) (dn₁ dn₂ : Float) : Float :=
  let a₁ := distanceMean eps
  let a₂ := reducedMean eps
  let m := a₁ - a₂
  let series := List.zipWith (fun c₁ c₂ => (1 + a₁) * c₁ - (1 + a₂) * c₂) (distanceSeries eps)
    (reducedSeries eps)
  let j := m * arc + sineSeriesBetween x y series
  dn₂ * (x.cos * y.sin) - dn₁ * (x.sin * y.cos) - x.cos * y.cos * j

/-- The positive root `k` of `k⁴ + 2 k³ - (x² + y² - 1) k² - 2 y² k - y² = 0`. -/
def astroid (x y : Float) : Float :=
  let p := square x
  let q := square y
  let r := (p + q - 1) / 6
  if q == 0 && r ≤ 0 then 0
  else
    let s := p * q / 4
    let r₂ := square r
    let r₃ := r * r₂
    let discriminant := s * (s + 2 * r₃)
    let u :=
      if discriminant ≥ 0 then
        let t₃ := s + r₃
        let t₃ := t₃ + (if t₃ < 0 then -discriminant.sqrt else discriminant.sqrt)
        let t := t₃.cbrt
        r + (t + (if t == 0 then 0 else r₂ / t))
      else
        let a := Float.atan2 (-discriminant).sqrt (-(s + r₃))
        r + 2 * r * (a / 3).cos
    let v := (square u + q).sqrt
    let uv := if u < 0 then q / (v - u) else u + v
    let w := (uv - q) / (2 * v)
    uv / ((uv + square w).sqrt + w)

/-- The longitude between two positions in canonical order: in radians, and as an angle. -/
structure LongitudeGap where
  radians : Float
  angle : Angle
deriving Inhabited

/-- Where the search for a direction starts: at a direction, or already at the end of a short
way with its directions at both ends, its arc, and the mean factor of its latitudes. -/
inductive Start where
  | direction (first : Angle)
  | short (first second : Angle) (arc factor : Float)

/-- A starting direction close to the antipode. -/
def antipodalStart (b₁ b₂ : Angle) (gap : LongitudeGap) (sbet12a : Float) : Angle :=
  let k2 := square b₁.sin * secondEccentricity
  let eps := k2 / (2 * (1 + (1 + k2).sqrt) + k2)
  let lonScale := flattening * b₁.cos * longitudeMean eps * pi
  let latScale := lonScale * b₁.cos
  let x := Float.atan2 (-gap.angle.sin) (-gap.angle.cos) / lonScale
  let y := sbet12a / latScale
  if y > -(200 * epsilon) && x > -1 - 1000 * rootEpsilon then
    let s := Scalar.smaller 1 (-x)
    ⟨s, -(1 - square s).sqrt⟩
  else
    let k := astroid x y
    let omega := lonScale * (-x * k / (1 + k))
    let s := omega.sin
    let c := -omega.cos
    ⟨b₂.cos * s, sbet12a - b₂.cos * b₁.sin * square s / (1 - c)⟩

/-- A direction that can be normalized; any other becomes due east. -/
def saneDirection (v : Angle) : Angle := if v.sin ≤ 0 then ⟨1, 0⟩ else v.normalize

/-- The start of the search for the direction from `b₁` to `b₂`. -/
def start (b₁ b₂ : Angle) (gap : LongitudeGap) : Start :=
  let sbet12 := b₂.sin * b₁.cos - b₂.cos * b₁.sin
  let cbet12 := b₂.cos * b₁.cos + b₂.sin * b₁.sin
  let sbet12a := b₂.sin * b₁.cos + b₂.cos * b₁.sin
  let isShort := cbet12 ≥ 0 && sbet12 < 0.5 && b₂.cos * gap.radians < 0.5
  let mid := square (b₁.sin + b₂.sin)
  let mid := mid / (mid + square (b₁.cos + b₂.cos))
  let factor := (1 + secondEccentricity * mid).sqrt
  let omega : Angle :=
    if isShort then
      let w := gap.radians / (axisRatio * factor)
      ⟨w.sin, w.cos⟩
    else gap.angle
  let first : Angle := ⟨b₂.cos * omega.sin,
    if omega.cos ≥ 0 then
      sbet12 + b₂.cos * b₁.sin * square omega.sin / (1 + omega.cos)
    else sbet12a - b₂.cos * b₁.sin * square omega.sin / (1 - omega.cos)⟩
  let sarc := hypotenuse first.sin first.cos
  let carc := b₁.sin * b₂.sin + b₁.cos * b₂.cos * omega.cos
  if isShort && sarc < shortWayBound then
    let second : Angle := ⟨b₁.cos * omega.sin,
      sbet12 - b₁.cos * b₂.sin *
        (if omega.cos ≥ 0 then square omega.sin / (1 + omega.cos) else 1 - omega.cos)⟩
    .short (saneDirection first) second.normalize (Float.atan2 sarc carc) factor
  else if carc ≥ 0 || sarc ≥ 6 * thirdFlattening.abs * pi * square b₁.cos then
    .direction (saneDirection first)
  else .direction (saneDirection (antipodalStart b₁ b₂ gap sbet12a))

/-! ### The search for the direction -/

/-- What a direction at the first position leads to at the latitude of the second one. -/
structure Reach where
  /-- By how much the longitude is missed. -/
  miss : Float
  /-- The derivative of `miss`. -/
  slope : Float
  arc : Float
  first : Angle
  second : Angle
  eps : Float
  /-- The direction at the second position. -/
  arrival : Angle
deriving Inhabited

/-- Follows a direction from `l₁` to the latitude of `l₂`. -/
def follow (l₁ l₂ : ReducedLatitude) (gap : LongitudeGap) (direction : Angle) : Reach :=
  let b₁ := l₁.angle
  let b₂ := l₂.angle
  let salp1 := direction.sin
  let calp1 := if b₁.sin == 0 && direction.cos == 0 then -tiny else direction.cos
  let salp0 := salp1 * b₁.cos
  let calp0 := hypotenuse calp1 (salp1 * b₁.sin)
  let x₁ : Angle := ⟨b₁.sin, calp1 * b₁.cos⟩
  let o₁ : Angle := ⟨salp0 * b₁.sin, calp1 * b₁.cos⟩
  let salp2 := if b₂.cos == b₁.cos then salp1 else salp0 / b₂.cos
  let calp2 :=
    if b₂.cos == b₁.cos && b₂.sin.abs == -b₁.sin then calp1.abs
    else
      (square (calp1 * b₁.cos) +
        (if b₁.cos < -b₁.sin then (b₂.cos - b₁.cos) * (b₁.cos + b₂.cos)
          else (b₁.sin - b₂.sin) * (b₁.sin + b₂.sin))).sqrt / b₂.cos
  let x₂ : Angle := ⟨b₂.sin, calp2 * b₂.cos⟩
  let o₂ : Angle := ⟨salp0 * b₂.sin, calp2 * b₂.cos⟩
  let s₁ := x₁.normalize
  let s₂ := x₂.normalize
  let arc := arcAngle s₁ s₂
  let somg := Scalar.larger 0 (o₁.cos * o₂.sin - o₁.sin * o₂.cos) + 0
  let comg := o₁.cos * o₂.cos + o₁.sin * o₂.sin
  let eta := Float.atan2 (somg * gap.angle.cos - comg * gap.angle.sin)
    (comg * gap.angle.cos + somg * gap.angle.sin)
  let k2 := square calp0 * secondEccentricity
  let eps := k2 / (2 * (1 + (1 + k2).sqrt) + k2)
  let b := sineSeriesBetween s₁ s₂ (longitudeSeries eps)
  let shift := -flattening * longitudeMean eps * salp0 * (arc + b)
  let slope :=
    if calp2 == 0 then -2 * axisRatio * l₁.factor / b₁.sin
    else arcReducedLength eps arc s₁ s₂ l₁.factor l₂.factor * (axisRatio / (calp2 * b₂.cos))
  ⟨eta + shift, slope, arc, s₁, s₂, eps, ⟨salp2, calp2⟩⟩

/-- The state of the search: the direction to try, a bracket of the root, and whether the last
step promised that the next one ends the search. -/
structure Search where
  direction : Angle
  low : Angle
  high : Angle
  nearlyDone : Bool
  bracketClosed : Bool

/-- The direction of a Newton step, if it stays in range. -/
def newtonStep (direction : Angle) (r : Reach) : Option Angle :=
  let d := -r.miss / r.slope
  if d.abs < pi then
    let s := direction.sin * d.cos + direction.cos * d.sin
    if 0 < s then some (Angle.normalize ⟨s, direction.cos * d.cos - direction.sin * d.sin⟩)
    else none
  else none

/-- Shrinks the bracket by the last direction tried. -/
def Search.shrink (s : Search) (taken : Nat) (miss : Float) : Search :=
  let late := newtonSteps < taken
  let ratio := s.direction.cos / s.direction.sin
  if 0 < miss && (late || ratio > s.high.cos / s.high.sin) then { s with high := s.direction }
  else if miss < 0 && (late || ratio < s.low.cos / s.low.sin) then { s with low := s.direction }
  else s

/-- The middle of the bracket as the next direction. -/
def Search.halve (s : Search) : Search :=
  let v : Angle := Angle.normalize
    ⟨(s.low.sin + s.high.sin) / 2, (s.low.cos + s.high.cos) / 2⟩
  { s with
    direction := v
    nearlyDone := false
    bracketClosed := (s.low.sin - v.sin).abs + (s.low.cos - v.cos) < epsilon ||
      (v.sin - s.high.sin).abs + (v.cos - s.high.cos) < epsilon }

/-- Searches for the direction, with at most the given number of steps left. -/
def Search.run (l₁ l₂ : ReducedLatitude) (gap : LongitudeGap) : Nat → Search → Angle × Reach
  | 0, s => (s.direction, follow l₁ l₂ gap s.direction)
  | left + 1, s =>
      let r := follow l₁ l₂ gap s.direction
      let taken := maxSteps - (left + 1)
      if s.bracketClosed || !(r.miss.abs ≥ (if s.nearlyDone then 8 else 1) * epsilon) then
        (s.direction, r)
      else
        let s := s.shrink taken r.miss
        match if taken < newtonSteps && 0 < r.slope then newtonStep s.direction r else none with
        | some v =>
            Search.run l₁ l₂ gap left
              { s with direction := v, nearlyDone := r.miss.abs ≤ 16 * epsilon }
        | none => Search.run l₁ l₂ gap left s.halve

/-! ### Ways in canonical order -/

/-- A way in canonical order: its length in metres, and its directions at both ends. -/
structure Way where
  distance : Float
  first : Angle
  second : Angle

/-- The way along a meridian, unless it is not the shortest. -/
def meridianWay (l₁ l₂ : ReducedLatitude) (gap : LongitudeGap) : Option Way :=
  let x : Angle := ⟨l₁.angle.sin, gap.angle.cos * l₁.angle.cos⟩
  let y : Angle := l₂.angle
  let arc := arcAngle x y
  let (length, reduced) := arcLengths thirdFlattening arc x y l₁.factor l₂.factor
  if arc < rootEpsilon || reduced ≥ 0 then
    let nowhere : Bool := arc < 3 * tiny || (arc < epsilon && (length < 0 || reduced < 0))
    some ⟨if nowhere then 0 else length * polarRadius, gap.angle, ⟨0, 1⟩⟩
  else none

/-- The way along the equator. -/
def equatorWay (gap : LongitudeGap) : Way :=
  ⟨equatorialRadius * gap.radians, ⟨1, 0⟩, ⟨1, 0⟩⟩

/-- Any other way. -/
def generalWay (l₁ l₂ : ReducedLatitude) (gap : LongitudeGap) : Way :=
  match start l₁.angle l₂.angle gap with
  | .short first second arc factor => ⟨arc * polarRadius * factor, first, second⟩
  | .direction v =>
      let (first, r) := Search.run l₁ l₂ gap maxSteps
        ⟨v, ⟨tiny, 1⟩, ⟨tiny, -1⟩, false, false⟩
      let (length, _) := arcLengths r.eps r.arc r.first r.second l₁.factor l₂.factor
      ⟨length * polarRadius, first, r.arrival⟩

/-- The reduced latitude of a geographic one in degrees. A pole keeps a positive cosine. -/
def reducedLatitude (lat : Float) : Angle :=
  let v := Angle.ofDegrees lat
  let v := Angle.normalize ⟨v.sin * axisRatio, v.cos⟩
  ⟨v.sin, Scalar.larger tiny v.cos⟩

/-- Makes the second of two reduced latitudes agree with the first where their absolute values
are equal up to rounding. -/
def alignLatitude (b₁ b₂ : Angle) : Angle :=
  if b₁.cos < -b₁.sin then
    if b₂.cos == b₁.cos then ⟨copySign b₁.sin b₂.sin, b₂.cos⟩ else b₂
  else if b₂.sin.abs == -b₁.sin then ⟨b₂.sin, b₁.cos⟩
  else b₂

/-- The factor of a reduced latitude. -/
def latitudeFactor (b : Angle) : Float := (1 + secondEccentricity * square b.sin).sqrt

/-- The way between latitudes in canonical order, in degrees: `lat₁` is at most zero and `lat₂`
at most as far from the equator. `opposite` is what lacks to a half turn in longitude. -/
def canonicalWay (lat₁ lat₂ : Float) (gap : LongitudeGap) (opposite : Float) : Way :=
  let b₁ := reducedLatitude lat₁
  let b₂ := alignLatitude b₁ (reducedLatitude lat₂)
  let l₁ : ReducedLatitude := ⟨b₁, latitudeFactor b₁⟩
  let l₂ : ReducedLatitude := ⟨b₂, latitudeFactor b₂⟩
  match if lat₁ == -90 || gap.angle.sin == 0 then meridianWay l₁ l₂ gap else none with
  | some way => way
  | none =>
      if b₁.sin == 0 && opposite ≥ flattening * 180 then equatorWay gap
      else generalWay l₁ l₂ gap

/-- The way between two positions whose coordinates are finite and whose latitudes are at most
90 degrees. -/
def courseBetween (p q : Position) : Course :=
  let (d, t) := longitudeDifference p.lon q.lon
  let west := isNegative d
  let d := if west then -d else d
  let t := if west then -t else t
  let gap : LongitudeGap := ⟨d * degree, Angle.ofDegreesWithRest d t⟩
  let lat₁ := Angle.roundDegrees p.lat
  let lat₂ := Angle.roundDegrees q.lat
  let swapped := lat₁.abs < lat₂.abs
  let (lat₁, lat₂) := if swapped then (lat₂, lat₁) else (lat₁, lat₂)
  let north := !isNegative lat₁
  let (lat₁, lat₂) := if north then (-lat₁, -lat₂) else (lat₁, lat₂)
  let way := canonicalWay lat₁ lat₂ gap ((180 - d) - t)
  let direction := if swapped then way.second else way.first
  let heading : Angle :=
    ⟨if west then -direction.sin else direction.sin,
     if swapped != north then -direction.cos else direction.cos⟩
  ⟨0 + way.distance, heading.toDegrees⟩

/-- The shortest way between two positions. It is not a number for a coordinate that is not
finite and for a latitude beyond the poles. -/
def course (p q : Position) : Course :=
  if p.isFinite && q.isFinite && p.lat.abs ≤ 90 && q.lat.abs ≤ 90 then courseBetween p q
  else ⟨undefined, undefined⟩

end Corridor.Geodesic

namespace Corridor

/-- How the shortest way from one position to another is measured. -/
class Geodesy where
  course : Position → Position → Geodesic.Course

/-- Ways are measured on the ellipsoid, unless another measure is given. -/
instance : Geodesy := ⟨Geodesic.course⟩

end Corridor
