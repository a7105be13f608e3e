import Corridor.Number.Scalar

/-!
# Angles

An angle is held as its sine and cosine, so that quadrants and right angles stay exact. Degrees
are reduced to the nearest right angle before a circular function is applied and rebuilt from it
afterwards: the sine and cosine of a multiple of 90 degrees, and the degrees of an angle on an
axis, have no rounding error.
-/

namespace Corridor.Geodesic

open Double

/-- The ratio of a circle's circumference to its diameter. -/
def pi : Float := 3.141592653589793

/-- One degree in radians. -/
def degree : Float := pi / 180

/-- The square of a number. -/
def square (x : Float) : Float := x * x

/-- A sum rounded, and its rounding error. -/
def addExactly (u v : Float) : Float × Float :=
  let s := u + v
  let up := s - v
  let vpp := s - up
  (s, if s == 0 then s else 0 - ((up - u) + (vpp - v)))

/-- The length of a vector, rounded with at most one unit of error. -/
def hypotenuse (x y : Float) : Float :=
  let a := Scalar.larger x.abs y.abs
  let b := Scalar.smaller x.abs y.abs
  if a ≥ b * 18014398509481984 then a + b
  else
    let h := (a * a + b * b).sqrt
    let correction :=
      if h ≤ 2 * b then
        let d := h - b
        a * (2 * d - a) + (d - 2 * (a - b)) * d
      else
        let d := h - a
        2 * d * (a - 2 * b) + ((4 * d - b) * b + d * d)
    h - correction / (2 * h)

/-- The sine and cosine of an angle, up to a common positive factor. -/
structure Angle where
  sin : Float
  cos : Float
deriving Inhabited

namespace Angle

/-- Scales the two parts so that their squares add up to one. -/
def normalize (v : Angle) : Angle :=
  let r := hypotenuse v.sin v.cos
  ⟨v.sin / r, v.cos / r⟩

/-- The angle of `r` radians and `quarters` right angles. The sign of a zero sine is that of
`whole`, the angle asked for. -/
def turned (r : Float) (quarters : Int) (whole : Float) : Angle :=
  let s := r.sin
  let c := r.cos
  let (s, c) :=
    if quarters % 4 = 0 then (s, c)
    else if quarters % 4 = 1 then (c, -s)
    else if quarters % 4 = 2 then (-s, -c)
    else (-c, s)
  ⟨if s == 0 then copySign s whole else s, c + 0⟩

/-- Rounds an angle in degrees so that what is close to zero has few digits. -/
def roundDegrees (x : Float) : Float :=
  let z := 0.0625
  let y := x.abs
  let w := z - y
  copySign (if 0 < w then z - w else y) x

/-- The angle of finitely many degrees. -/
def ofDegrees (x : Float) : Angle :=
  let (quarters, r) := reduce x 90
  turned (r * degree) quarters x

/-- The angle of `x` degrees and a small rest of `t` degrees. -/
def ofDegreesWithRest (x t : Float) : Angle :=
  let (quarters, r) := reduce x 90
  turned (roundDegrees (r + t) * degree) quarters (x + t)

/-- The degrees of an angle, between -180 and 180. -/
def toDegrees (v : Angle) : Float :=
  let steep : Bool := v.cos.abs < v.sin.abs
  let y := if steep then v.cos else v.sin
  let x := if steep then v.sin else v.cos
  let back := isNegative x
  let a := Float.atan2 y (if back then -x else x) / degree
  if steep then if back then -90 + a else 90 - a
  else if back then copySign 180 y - a
  else a

end Angle

/-- The degrees from one longitude to another, reduced to `[-180, 180]`, and the rounding error
of that difference. Where the difference is zero or a half turn, its sign tells the direction. -/
def longitudeDifference (x y : Float) : Float × Float :=
  let (d, t) := addExactly (reduce (-x) 360).2 (reduce y 360).2
  let (d, t) := addExactly (reduce d 360).2 t
  if d == 0 || d.abs == 180 then (copySign d (if t == 0 then y - x else -t), t) else (d, t)

end Corridor.Geodesic
