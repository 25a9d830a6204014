import Ideograph.Path.Basic

/-! # Quadratic contours

A contour is a closed chain of points, each on the curve or a control point. Between two control
points in a row the curve passes through their midpoint.
-/

namespace Ideograph.Font.Plain

open Number

/-- A point of a contour. -/
structure Knot where
  point : Point Single
  onCurve : Bool
  endsContour : Bool

/-- The point half way from `p` to `q`. -/
def midpoint (p q : Point Single) : Point Single :=
  let half : Single := .nearest false (1 / 2)
  ⟨p.x + half * (q.x - p.x), p.y + half * (q.y - p.y)⟩

/-- How far a contour has been drawn. -/
inductive Tracer where
  | idle
  /-- One control point was met, and no point on the curve. -/
  | waiting (control : Point Single)
  /-- The curve began at `start`. The control points are the one before `start`, and one that
  waits for the next point. -/
  | drawing (start : Point Single) (before : Option (Point Single))
      (control : Option (Point Single))

namespace Tracer

/-- Go on to the next point. -/
def visit : Tracer → Knot → Tracer × Path Single
  | idle, k =>
    if k.onCurve then (drawing k.point none none, [.moveTo k.point]) else (waiting k.point, [])
  | waiting c, k =>
    if k.onCurve then (drawing k.point (some c) none, [.moveTo k.point])
    else
      let start := midpoint c k.point
      (drawing start (some c) (some k.point), [.moveTo start])
  | drawing start before none, k =>
    if k.onCurve then (drawing start before none, [.lineTo k.point])
    else (drawing start before (some k.point), [])
  | drawing start before (some c), k =>
    if k.onCurve then (drawing start before none, [.quadTo c k.point])
    else (drawing start before (some k.point), [.quadTo c (midpoint c k.point)])

/-- Lead the curve back to its start. -/
def finish : Tracer → Path Single
  | idle | waiting _ => [.close]
  | drawing start none none => [.lineTo start, .close]
  | drawing start none (some c) => [.quadTo c start, .close]
  | drawing start (some b) none => [.quadTo b start, .close]
  | drawing start (some b) (some c) => [.quadTo c (midpoint c b), .quadTo b start, .close]

/-- Draw the contours of a list of points. -/
def trace : Tracer → List Knot → Path Single
  | _, [] => []
  | t, k :: ks =>
    let (t, path) := t.visit k
    if k.endsContour then path ++ t.finish ++ trace idle ks else path ++ trace t ks

end Tracer

end Ideograph.Font.Plain
