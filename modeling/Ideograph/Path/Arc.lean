import Ideograph.Number.Elementary
import Ideograph.Path.Basic

/-! # Elliptical arcs

An arc is given by its end points, the radii and rotation of its ellipse, and two flags that
choose one of four candidates. It is converted to a centre and a range of angles, and drawn as
curves of equal sweep, as few as keep within a tenth of a unit.
-/

namespace Ideograph

open Number

/-- An arc by its end points. -/
structure EndpointArc where
  start : Point Double
  stop : Point Double
  radii : Point Double
  rotation : Double
  large : Bool
  sweep : Bool

/-- An arc by its centre. -/
structure CenterArc where
  center : Point Double
  radii : Point Double
  startAngle : Double
  sweepAngle : Double
  rotation : Double

namespace EndpointArc

/-- Degenerate radii and coinciding end points leave a straight line. -/
def isLine (a : EndpointArc) : Bool :=
  a.radii.x.abs ≤ 1e-5 || a.radii.y.abs ≤ 1e-5 ||
    (a.start.x == a.stop.x && a.start.y == a.stop.y)

/-- Find the centre and the angles, enlarging radii that do not reach. -/
def toCenter (a : EndpointArc) : CenterArc :=
  let fullTurn := 2.0 * Double.pi
  let sin := Double.sin (a.rotation % fullTurn)
  let cos := Double.cos (a.rotation % fullTurn)
  let half : Point Double :=
    ⟨(a.start.x - a.stop.x) * 0.5, (a.start.y - a.stop.y) * 0.5⟩
  let middle : Point Double :=
    ⟨(a.start.x + a.stop.x) * 0.5, (a.start.y + a.stop.y) * 0.5⟩
  let p : Point Double := ⟨cos * half.x + sin * half.y, -sin * half.x + cos * half.y⟩
  let rx := a.radii.x.abs
  let ry := a.radii.y.abs
  let excess := p.x * p.x / (rx * rx) + p.y * p.y / (ry * ry)
  let scale := if 1.0 < excess then Double.sqrt excess else 1.0
  let rx := rx * scale
  let ry := ry * scale
  let rxry := rx * ry
  let rxpy := rx * p.y
  let rypx := ry * p.x
  let sum := rxpy * rxpy + rypx * rypx
  let sign : Double := if a.large == a.sweep then -1.0 else 1.0
  let factor := sign * Double.sqrt ((rxry * rxry - sum) / sum).abs
  let c : Point Double := ⟨factor * rxpy / ry, -factor * rypx / rx⟩
  let startAngle := Double.atan2 ((p.y - c.y) / ry) ((p.x - c.x) / rx)
  let stopAngle := Double.atan2 ((-p.y - c.y) / ry) ((-p.x - c.x) / rx)
  let sweepAngle := (stopAngle - startAngle) % fullTurn
  let sweepAngle :=
    if a.sweep && decide (sweepAngle < 0.0) then sweepAngle + fullTurn
    else if !a.sweep && decide (0.0 < sweepAngle) then sweepAngle - fullTurn
    else sweepAngle
  { center := ⟨cos * c.x - sin * c.y + middle.x, sin * c.x + cos * c.y + middle.y⟩
    radii := ⟨rx, ry⟩
    startAngle := startAngle
    sweepAngle := sweepAngle
    rotation := a.rotation }

end EndpointArc

namespace CenterArc

/-- A point of the ellipse, relative to its centre. -/
def sample (a : CenterArc) (angle : Double) : Point Double :=
  let u := a.radii.x * Double.cos angle
  let v := a.radii.y * Double.sin angle
  let sin := Double.sin a.rotation
  let cos := Double.cos a.rotation
  ⟨u * cos - v * sin, u * sin + v * cos⟩

/-- The number of curves, which is none when the angles are not numbers. -/
def pieces (a : CenterArc) : Double :=
  let scaled := (a.radii.x.max a.radii.y) / 0.1
  let perTurn := (Double.pow (1.1163 * scaled) (1.0 / 6.0)).max 3.999999
  (perTurn * a.sweepAngle.abs * (1.0 / (2.0 * Double.pi))).ceil

/-- Draw `count` curves from `angle` on, the first of them from `p`. -/
def curvesFrom (a : CenterArc) (step arm : Double) :
    Nat → Double → Point Double → Path Double
  | 0, _, _ => []
  | count + 1, angle, p =>
    let quarter := Double.pi / 2.0
    let next := angle + step
    let leaving := a.sample (angle + quarter)
    let arriving := a.sample (next + quarter)
    let q := a.sample next
    .curveTo ⟨a.center.x + (p.x + arm * leaving.x), a.center.y + (p.y + arm * leaving.y)⟩
        ⟨a.center.x + (q.x - arm * arriving.x), a.center.y + (q.y - arm * arriving.y)⟩
        ⟨a.center.x + q.x, a.center.y + q.y⟩ ::
      curvesFrom a step arm count next q

/-- Draw an arc after its start point. -/
def curves (a : CenterArc) : Path Double :=
  let step := a.sweepAngle / a.pieces
  let sign : Double :=
    if a.sweepAngle.isNaN then .nan else if a.sweepAngle.isNegative then -1.0 else 1.0
  let arm := (4.0 / 3.0) * Double.tan (0.25 * step).abs * sign
  a.curvesFrom step arm a.pieces.toRat.floor.toNat a.startAngle (a.sample a.startAngle)

end CenterArc

end Ideograph
