import Ideograph.Path.Reader
import Ideograph.Path.Writer

/-! # Placing drawings

A placement scales about the origin and then translates. Placed path data is written anew, so
that it is rounded once.
-/

namespace Ideograph

open Number

/-- A scale along each axis, and then a shift. -/
structure Placement (α : Type) where
  scaleX : α
  scaleY : α
  translateX : α
  translateY : α
  deriving DecidableEq, Repr

namespace Placement

variable {α : Type} [Scalar α]

def identity : Placement α :=
  ⟨1.0, 1.0, 0.0, 0.0⟩

/-- Scale both axes alike. -/
def scaled (k : α) : Placement α :=
  ⟨k, k, 0.0, 0.0⟩

/-- Equality of numbers in every part, so that the sign of a zero does not count. -/
def isIdentity (p : Placement α) : Bool :=
  p.scaleX == 1.0 && p.scaleY == 1.0 && p.translateX == 0.0 && p.translateY == 0.0

/-- The image of a point, computed with all four entries of the matrix. -/
def apply (p : Placement α) (q : Point α) : Point α :=
  ⟨p.scaleX * q.x + 0.0 * q.y + p.translateX, 0.0 * q.x + p.scaleY * q.y + p.translateY⟩

end Placement

variable {α : Type} [Scalar α]

/-- Place a path and write it. -/
def Path.place (path : Path α) (p : Placement α) (places : Nat) : String :=
  if p.isIdentity then path.write places else (path.mapPoints p.apply).write places

/-- Read path data, place it and write it. -/
def Placement.placeData (p : Placement α) (places : Nat) (data : String) :
    Except Path.Fault String := do
  let path : Path α ← Path.read data
  return path.place p places

end Ideograph
