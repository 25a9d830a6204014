import Ideograph.Number.Scalar

/-! # Paths

A drawing is a list of pen movements between points of the plane: moves, lines, curves with one
or two control points, and closings of the current figure.
-/

namespace Ideograph

structure Point (α : Type) where
  x : α
  y : α
  deriving DecidableEq, Repr, Inhabited

namespace Point

variable {α β : Type}

def map (f : α → β) (p : Point α) : Point β :=
  ⟨f p.x, f p.y⟩

end Point

/-- One movement of the pen. -/
inductive Element (α : Type) where
  | moveTo (p : Point α)
  | lineTo (p : Point α)
  | quadTo (c p : Point α)
  | curveTo (c₁ c₂ p : Point α)
  | close
  deriving DecidableEq, Repr, Inhabited

namespace Element

variable {α β : Type}

/-- The points of a movement, control points first. -/
def points : Element α → List (Point α)
  | moveTo p | lineTo p => [p]
  | quadTo c p => [c, p]
  | curveTo c₁ c₂ p => [c₁, c₂, p]
  | close => []

/-- Move every point of a movement. -/
def map (f : Point α → Point β) : Element α → Element β
  | moveTo p => moveTo (f p)
  | lineTo p => lineTo (f p)
  | quadTo c p => quadTo (f c) (f p)
  | curveTo c₁ c₂ p => curveTo (f c₁) (f c₂) (f p)
  | close => close

end Element

abbrev Path (α : Type) := List (Element α)

namespace Path

variable {α β : Type}

def mapPoints (f : Point α → Point β) (path : Path α) : Path β :=
  path.map (Element.map f)

end Path

end Ideograph
