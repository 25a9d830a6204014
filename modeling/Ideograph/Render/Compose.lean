import Ideograph.Error
import Ideograph.Layout

/-! # Composing operands

The fragments of each operand are moved into its slot and joined in order.
-/

namespace Ideograph

open Number

/-- Decimals kept in drawings. -/
def drawingPlaces : Nat := 2

/-- The fragments of one operand and its slot. -/
structure Layer (α : Type) where
  fragments : List String
  slot : Slot α

variable {α : Type} [Scalar α]

/-- Move fragments by a placement, up to the first that is not path data. -/
def Placement.placeAll (p : Placement α) (fragments : List String) :
    Except RenderError (List String) :=
  fragments.mapM fun data => (p.placeData drawingPlaces data).mapError .path

/-- Move every operand into its slot. -/
def compose (layers : List (Layer α)) : Except RenderError (List String) := do
  let placed ← layers.mapM fun layer => layer.slot.placement.placeAll layer.fragments
  return placed.flatten

end Ideograph
