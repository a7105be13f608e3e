import Corridor.Geodesic.Angle

/-!
# Geodesic Series

The ellipsoid of revolution that distances and headings refer to, and the series for geodesics
on it. They are carried to the sixth order in the third flattening, which leaves errors of a few
nanometres. A coefficient is a polynomial, given by its integer coefficients from the highest
power down, over a common denominator.
-/

namespace Corridor.Geodesic

/-! ### The ellipsoid -/

/-- The equatorial radius in metres. -/
def equatorialRadius : Float := 6378137

/-- The flattening. -/
def flattening : Float := 1 / 298.257223563

/-- The ratio of the polar radius to the equatorial one. -/
def axisRatio : Float := 1 - flattening

/-- The polar radius in metres. -/
def polarRadius : Float := equatorialRadius * axisRatio

/-- The third flattening. -/
def thirdFlattening : Float := flattening / (2 - flattening)

/-- The square of the second eccentricity. -/
def secondEccentricity : Float := flattening * (2 - flattening) / square axisRatio

/-! ### Polynomials -/

/-- The value of a polynomial, from its coefficients from the highest power down. -/
def horner (coefficients : List Float) (x : Float) : Float :=
  match coefficients with
  | [] => 0
  | c :: cs => cs.foldl (fun y c => y * x + c) c

/-- A polynomial over a denominator. -/
abbrev Fraction := List Float × Float

/-- The value of a polynomial over its denominator. -/
def Fraction.at (p : Fraction) (x : Float) : Float := horner p.1 x / p.2

/-- The sum of `cₖ sin (2 k x)` over the coefficients `c₁, c₂, …` of a sine series. -/
def sineSeries (x : Angle) (coefficients : List Float) : Float :=
  let double := 2 * (x.cos - x.sin) * (x.cos + x.sin)
  let step := fun (b : Float × Float) c => (double * b.1 - b.2 + c, b.1)
  2 * x.sin * x.cos * (coefficients.reverse.foldl step (0, 0)).1

/-- The sum of a sine series between two angles. -/
def sineSeriesBetween (x y : Angle) (coefficients : List Float) : Float :=
  sineSeries y coefficients - sineSeries x coefficients

/-- Coefficients that carry the powers `eps, eps ^ 2, …` times a fraction in `eps ^ 2`. -/
def powerCoefficients (eps : Float) : Float → List Fraction → List Float
  | _, [] => []
  | d, p :: ps => d * horner p.1 (square eps) / p.2 :: powerCoefficients eps (d * eps) ps

/-! ### Distance -/

/-- The mean of the distance integral, less one. -/
def distanceMean (eps : Float) : Float :=
  (Fraction.at ([1, 4, 64, 0], 256) (square eps) + eps) / (1 - eps)

/-- The sine series of the distance integral. -/
def distanceSeries (eps : Float) : List Float :=
  powerCoefficients eps eps
    [([-1, 6, -16], 32), ([-9, 64, -128], 2048), ([9, -16], 768), ([3, -5], 512), ([-7], 1280),
     ([-7], 2048)]

/-- The mean of the integral of the reduced length, less one. -/
def reducedMean (eps : Float) : Float :=
  (Fraction.at ([-11, -28, -192, 0], 256) (square eps) - eps) / (1 + eps)

/-- The sine series of the integral of the reduced length. -/
def reducedSeries (eps : Float) : List Float :=
  powerCoefficients eps eps
    [([1, 2, 16], 32), ([35, 64, 384], 2048), ([15, 80], 768), ([7, 35], 512), ([63], 1280),
     ([77], 2048)]

/-! ### Longitude -/

/-- The mean of the longitude integral, as a polynomial in `eps`. -/
def longitudeMeanCoefficients : List Float :=
  [([-3], 128), ([-2, -3], 64), ([-1, -3, -1], 16), ([3, -1, -2], 8), ([1, -1], 2),
    (([1], 1) : Fraction)].map (Fraction.at · thirdFlattening)

/-- The mean of the longitude integral. -/
def longitudeMean (eps : Float) : Float := horner longitudeMeanCoefficients eps

/-- The sine series of the longitude integral, each coefficient less its power of `eps` as a
polynomial in `eps`. -/
def longitudeSeriesCoefficients : List (List Float) :=
  [[([3], 128), ([2, 5], 128), ([-1, 3, 3], 64), ([-1, 0, 1], 8), ([-1, 1], 4)],
   [([5], 256), ([1, 3], 128), ([-3, -2, 3], 64), ([1, -3, 2], 32)],
   [([7], 512), ([-10, 9], 384), ([5, -9, 5], 192)],
   [([7], 512), ([-14, 7], 512)],
   [(([21], 2560) : Fraction)]].map fun ps => ps.map (Fraction.at · thirdFlattening)

/-- Multiplies the values of polynomials in `eps` by `eps, eps ^ 2, …`. -/
def powerHorner (eps : Float) : Float → List (List Float) → List Float
  | _, [] => []
  | d, p :: ps => d * eps * horner p eps :: powerHorner eps (d * eps) ps

/-- The sine series of the longitude integral. -/
def longitudeSeries (eps : Float) : List Float := powerHorner eps 1 longitudeSeriesCoefficients

end Corridor.Geodesic
