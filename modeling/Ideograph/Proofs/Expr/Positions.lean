import Ideograph.Layout
import Ideograph.Proofs.Expr.Owed

/-! # Positions of leaves

The operands of a two-way split stand on its two sides, and those of every other operator have no
position. Only a leaf is drawn by its position: one that an operator has itself does not reach its
operands.
-/

namespace Ideograph

open Number

/-- The position of the operand with an index. -/
def Operator.operandPosition : Operator → Nat → Option Position
  | .leftToRight, 0 => some .left
  | .leftToRight, 1 => some .right
  | .aboveToBelow, 0 => some .up
  | .aboveToBelow, 1 => some .down
  | _, _ => none

/-- The positions of the operands in their order. -/
def Operator.operandPositions (op : Operator) : List (Option Position) :=
  List.ofFn fun i : Fin op.arity => op.operandPosition i

/-- The leaves of an expression from left to right, each with its position. -/
def Expr.positioned : Expr → Option Position → List (Option Position × Char)
  | .leaf c _, position => [(position, c)]
  | .node op operands, _ =>
    (List.ofFn fun i => (operands i).positioned (op.operandPosition i)).flatten

section Slots

variable {α : Type} [Scalar α]

/-- What an operator finds ahead does not change the positions of its operands. -/
theorem Operator.map_position_slots (op : Operator) (first second : Option Char) (side : α)
    (parts : Parts) :
    (op.slots first second side parts).map Slot.position = op.operandPositions := by
  cases op <;> rfl

theorem Operator.map_position_layout (op : Operator) (operands : List Char) (side : α)
    (parts : Parts) :
    (op.layout operands side parts).map Slot.position = op.operandPositions :=
  op.map_position_slots operands.head? (secondRoot? operands) side parts

end Slots

namespace Expr

theorem map_snd_positioned (e : Expr) (position : Option Position) :
    (e.positioned position).map Prod.snd = e.leaves := by
  induction e generalizing position with
  | leaf c hc => rfl
  | node op operands ih =>
    simp [positioned, leaves, List.map_flatten, List.map_ofFn, Function.comp_def, ih]

/-- The leaves of expressions in a row, each drawn in its position. -/
def rowPositioned (es : List Expr) (positions : List (Option Position)) :
    List (Option Position × Char) :=
  (es.zip positions).flatMap fun (e, position) => e.positioned position

theorem rowPositioned_cons (e : Expr) (es : List Expr) (position : Option Position)
    (positions : List (Option Position)) :
    rowPositioned (e :: es) (position :: positions) =
      e.positioned position ++ rowPositioned es positions := rfl

theorem zip_operandPositions (op : Operator) (operands : Fin op.arity → Expr) :
    (List.ofFn operands).zip op.operandPositions =
      List.ofFn fun i => (operands i, op.operandPosition i) := by
  refine List.ext_getElem (by simp [Operator.operandPositions]) fun i _ _ => ?_
  simp [Operator.operandPositions]

theorem positioned_node (op : Operator) (operands : Fin op.arity → Expr)
    (position : Option Position) :
    (node op operands).positioned position =
      rowPositioned (List.ofFn operands) op.operandPositions := by
  rw [positioned, rowPositioned, zip_operandPositions, List.flatMap_def, List.map_ofFn]
  rfl

end Expr

end Ideograph
