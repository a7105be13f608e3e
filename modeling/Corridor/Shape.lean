import Corridor.Number.Double

/-!
# Shapes

A shape is a finite union of points, paths and areas in longitude and latitude. Whether a shape
covers a position is decided exactly on the doubles given: interiors and boundaries belong to a
shape, holes do not, and their edges do.
-/

namespace Corridor

/-- A longitude and a latitude in degrees. -/
structure Position where
  lon : Float
  lat : Float
deriving Inhabited

/-- An outer ring and the rings of its holes. A ring need not repeat its first position. -/
structure Area where
  outer : List Position
  holes : List (List Position)
deriving Inhabited

/-- A union of points, paths and areas. -/
structure Shape where
  points : List Position
  paths : List (List Position)
  areas : List Area
deriving Inhabited

namespace Position

/-- Whether both coordinates are finite. -/
def isFinite (p : Position) : Bool := p.lon.isFinite && p.lat.isFinite

/-- Whether two positions have equal coordinates. -/
def sameAs (p q : Position) : Bool := p.lon == q.lon && p.lat == q.lat

/-- Twice the signed area of the triangle `a b p` in squared units: positive when `p` lies to
the left of the way from `a` to `b`, zero on the line through them. -/
def turn (a b p : Position) : Int :=
  let ax := Double.units a.lon
  let ay := Double.units a.lat
  (Double.units b.lon - ax) * (Double.units p.lat - ay) -
    (Double.units b.lat - ay) * (Double.units p.lon - ax)

/-- Whether a number lies between two others, in either order. -/
def between (x a b : Float) : Bool := (a ≤ x && x ≤ b) || (b ≤ x && x ≤ a)

/-- Whether `p` lies on the segment from `a` to `b`. -/
def onSegment (p a b : Position) : Bool :=
  between p.lat a.lat b.lat && between p.lon a.lon b.lon && turn a b p == 0

/-- Whether the ray from `p` to the east crosses the segment from `a` to `b`. Of the two ends
of a segment the lower one belongs to it. -/
def rayCrosses (p a b : Position) : Bool :=
  if a.lat ≤ p.lat then p.lat < b.lat && 0 < turn a b p
  else b.lat ≤ p.lat && turn a b p < 0

end Position

/-- The segments between consecutive positions. -/
def segments (ps : List Position) : List (Position × Position) := ps.zip ps.tail

/-- The segments of a closed ring. -/
def ringSegments (ps : List Position) : List (Position × Position) :=
  match ps with
  | [] => []
  | p :: _ => segments (ps ++ [p])

namespace Area

/-- Whether a position lies on a ring. -/
def onRing (ring : List Position) (p : Position) : Bool :=
  (ringSegments ring).any fun s => p.onSegment s.1 s.2

/-- Whether a position that is not on a ring lies inside it: the ray to the east crosses the
ring an odd number of times. -/
def insideRing (ring : List Position) (p : Position) : Bool :=
  (ringSegments ring).countP (fun s => p.rayCrosses s.1 s.2) % 2 == 1

/-- Whether an area covers a position. -/
def covers (a : Area) (p : Position) : Bool :=
  onRing a.outer p ||
    (insideRing a.outer p && a.holes.all fun h => onRing h p || !insideRing h p)

end Area

namespace Shape

/-- The shape of nothing. -/
def empty : Shape := ⟨[], [], []⟩

/-- The union of two shapes. -/
def union (s t : Shape) : Shape :=
  ⟨s.points ++ t.points, s.paths ++ t.paths, s.areas ++ t.areas⟩

/-- The closed rectangle between two corners. -/
def box (x₀ y₀ x₁ y₁ : Float) : Shape :=
  ⟨[], [], [⟨[⟨x₁, y₀⟩, ⟨x₁, y₁⟩, ⟨x₀, y₁⟩, ⟨x₀, y₀⟩], []⟩]⟩

/-- Whether a shape has no positions. -/
def isEmpty (s : Shape) : Bool :=
  s.points.isEmpty && s.paths.all List.isEmpty && s.areas.all fun a => a.outer.isEmpty

/-- Whether a path covers a position. -/
def pathCovers (path : List Position) (p : Position) : Bool :=
  (segments path).any fun s => p.onSegment s.1 s.2

/-- Whether a shape covers a position. No shape covers a position that is not finite. -/
def covers (s : Shape) (p : Position) : Bool :=
  p.isFinite &&
    (s.points.any p.sameAs || s.paths.any (pathCovers · p) || s.areas.any (Area.covers · p))

/-- The positions that span a shape: those of its points, paths and outer rings. -/
def positions (s : Shape) : List Position :=
  s.points ++ s.paths.flatten ++ (s.areas.map (·.outer)).flatten

/-- The shapes of a list that are there and are not empty. -/
def present (shapes : List (Option Shape)) : List Shape :=
  shapes.filterMap fun s => s.filter fun s => !s.isEmpty

end Shape

end Corridor
