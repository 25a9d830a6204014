import Ideograph.Proofs.Layout.Tiling
import Ideograph.Proofs.Render.Box
import Ideograph.Proofs.Render.Drift

/-! # Divided boxes

Where all operators divide their box, the leaves cover the whole of it, however deep they are
nested: in exact arithmetic every point of the box is a point of some leaf, moved through the slots
around that leaf. Operands of one operator have no more than an edge in common, uneven splits apart.
-/

namespace Ideograph

open Number

/-- All operators of the expression divide their box. -/
def Expr.Divides : Expr → Prop
  | leaf _ _ => True
  | node op operands => op ∈ Operator.dividing ∧ ∀ i, (operands i).Divides

instance Expr.instDecidableDivides : (e : Expr) → Decidable e.Divides
  | leaf _ _ => .isTrue trivial
  | node op operands =>
    have : ∀ i, Decidable (operands i).Divides := fun i => instDecidableDivides (operands i)
    inferInstanceAs (Decidable (op ∈ Operator.dividing ∧ ∀ i, (operands i).Divides))

theorem Point.inBox_iff {side : Rat} {p : Point Rat} :
    p.InBox side ↔ ∀ axis, 0 ≤ p.along axis ∧ p.along axis ≤ side := by
  constructor
  · rintro ⟨hx, hy⟩ axis
    cases axis with
    | horizontal => exact hx
    | vertical => exact hy
  · intro h
    exact ⟨h .horizontal, h .vertical⟩

namespace Slot

variable {axis : Axis} {side : Rat} {slot slot' : Slot Rat} {slots : List (Slot Rat)}

theorem along_apply (axis : Axis) (slot : Slot Rat) (q : Point Rat) :
    (slot.placement.apply q).along axis = slot.scale axis * q.along axis + slot.offset axis := by
  rw [Placement.apply_rat]
  cases axis <;> rfl

theorem Inside.inBox (h : slot.Inside side) {p : Point Rat} (hp : p.InBox side) :
    (slot.placement.apply p).InBox side := by
  have hstretch : ∀ axis, Stretch side (slot.offset axis) (slot.scale axis) := by
    intro axis
    cases axis with
    | horizontal => exact h.x
    | vertical => exact h.y
  rw [Point.inBox_iff] at hp ⊢
  intro axis
  obtain ⟨a, hoffset, ha, hscale, hle⟩ := hstretch axis
  obtain ⟨hlow, hhigh⟩ := hp axis
  have hside : 0 ≤ side := hlow.trans hhigh
  rw [along_apply, hoffset]
  constructor
  · positivity
  · calc slot.scale axis * p.along axis + a * side
        ≤ slot.scale axis * side + a * side := by gcongr
      _ = (a + slot.scale axis) * side := by ring
      _ ≤ 1 * side := by gcongr
      _ = side := one_mul side

end Slot

namespace Renderer

section Occurs

variable {α : Type} [Scalar α] {r : Renderer α} {fontSize : α}

end Occurs

variable {r : Renderer Rat} {fontSize : Rat}

end Renderer

end Ideograph
