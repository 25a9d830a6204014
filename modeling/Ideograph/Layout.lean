import Ideograph.Lookahead
import Ideograph.Parts
import Ideograph.Path.Placement

/-! # Slots of operands

An operator assigns each operand a slot: an offset in the units of the drawing, a scale as a
fraction of the box, and for a two-way split a position. The slots of a split depend on whether
its operands begin with a small part.
-/

namespace Ideograph

open Number

/-- The slot of one operand. -/
structure Slot (α : Type) where
  offsetX : α
  offsetY : α
  scaleX : α
  scaleY : α
  position : Option Position
  deriving DecidableEq, Repr

namespace Slot

variable {α : Type} [Scalar α]

/-- The whole box. -/
def full : Slot α :=
  ⟨0.0, 0.0, 1.0, 1.0, none⟩

def placement (s : Slot α) : Placement α :=
  ⟨s.scaleX, s.scaleY, s.offsetX, s.offsetY⟩

/-- A stretch of one axis and the whole of the other. -/
def along (axis : Axis) (offset extent : α) (position : Option Position) : Slot α :=
  match axis with
  | .horizontal => ⟨offset, 0.0, extent, 1.0, position⟩
  | .vertical => ⟨0.0, offset, 1.0, extent, position⟩

end Slot

namespace Axis

/-- The positions of the two parts of a split. -/
def positions : Axis → Position × Position
  | horizontal => (.left, .right)
  | vertical => (.up, .down)

/-- The extent of a small first part, which is a little more than a third in a row. -/
def narrow {α : Type} [Scalar α] : Axis → α
  | horizontal => 1.2 / 3.0
  | vertical => 1.0 / 3.0

end Axis

namespace Layout

variable {α : Type} [Scalar α]

/-- Offset and extent of both parts of a split, by the tokens with which they begin.

A part that is small beside one that is not takes the narrow slot, or two thirds of the box if it
keeps its width. Where no token begins, none is small. -/
def stretches (axis : Axis) (first second : Option Char) (side : α) (parts : Parts) :
    (α × α) × (α × α) :=
  let third := side / 3.0
  let twoThirds := side * 2.0 / 3.0
  let half := side / 2.0
  match first.any parts.isSmall, second.any parts.isSmall with
  | true, false =>
    if first.any parts.isUnshrink then ((0.0, 2.0 / 3.0), (third, 2.0 / 3.0))
    else ((0.0, axis.narrow), (third, 2.0 / 3.0))
  | false, true =>
    if second.any parts.isUnshrink then ((0.0, 2.0 / 3.0), (third, 2.0 / 3.0))
    else ((0.0, 2.0 / 3.0), (twoThirds, 1.0 / 3.0))
  | _, _ => ((0.0, 0.5), (half, 0.5))

/-- The slots of a rule in a box of the given side. -/
def slots (rule : Rule α) (first second : Option Char) (side : α) (parts : Parts) :
    List (Slot α) :=
  match rule with
  | .split axis =>
    let ((offset₁, extent₁), (offset₂, extent₂)) := stretches axis first second side parts
    [.along axis offset₁ extent₁ axis.positions.1, .along axis offset₂ extent₂ axis.positions.2]
  | .thirds axis =>
    [0.0, 1.0, 2.0].map fun i => .along axis (side * i / 3.0) (1.0 / 3.0) none
  | .nest dx dy => [.full, ⟨dx * side, dy * side, 0.65, 0.65, none⟩]
  | .overlay => [.full, .full]

end Layout

namespace Operator

variable {α : Type} [Scalar α]

/-- The slots of an operator whose operands begin with the given tokens. -/
def slots (op : Operator) (first second : Option Char) (side : α) (parts : Parts) :
    List (Slot α) :=
  Layout.slots op.rule first second side parts

/-- The slots of an operator in front of its operands. -/
def layout (op : Operator) (operands : List Char) (side : α) (parts : Parts) : List (Slot α) :=
  op.slots operands.head? (secondRoot? operands) side parts

/-- An operator has a slot for every operand. -/
theorem length_slots (op : Operator) (first second : Option Char) (side : α) (parts : Parts) :
    (op.slots first second side parts).length = op.arity := by
  cases op <;> rfl

theorem length_layout (op : Operator) (operands : List Char) (side : α) (parts : Parts) :
    (op.layout operands side parts).length = op.arity :=
  length_slots op operands.head? (secondRoot? operands) side parts

end Operator

end Ideograph
