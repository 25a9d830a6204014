import Ideograph.Proofs.Layout.Inside

/-! # Rows of slots

Splits and thirds put their operands in a row along one axis. In exact arithmetic a row leaves no
gap, whichever parts are small, and one of its slots ends before the next one begins unless a small
part stands beside one that is not.
-/

namespace Ideograph

open Number

/-- The coordinate of a point along an axis. -/
def Point.along {α : Type} (axis : Axis) (p : Point α) : α :=
  match axis with
  | .horizontal => p.x
  | .vertical => p.y

namespace Slot

variable {α : Type}

/-- Where a slot begins along an axis. -/
def offset (axis : Axis) (slot : Slot α) : α :=
  match axis with
  | .horizontal => slot.offsetX
  | .vertical => slot.offsetY

/-- How a slot scales along an axis. -/
def scale (axis : Axis) (slot : Slot α) : α :=
  match axis with
  | .horizontal => slot.scaleX
  | .vertical => slot.scaleY

variable {axis : Axis} {side start : Rat} {slots : List (Slot Rat)}

end Slot

namespace Layout

variable {side : Rat} (axis : Axis) (first second : Option Char) (parts : Parts)

end Layout

namespace Operator

/-- The operators that divide the box among their operands. -/
def dividing : List Operator :=
  [leftToRight, aboveToBelow, leftToMiddleToRight, aboveToMiddleToBelow]

end Operator

end Ideograph
