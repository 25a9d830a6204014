import Ideograph.Expr
import Ideograph.Render.Engine

/-! # Drawing a tree

The drawing of an expression by recursion on the expression itself. The slots of an operator are
laid out by the tokens with which its operands begin, and every operand is drawn in its own slot.
So every leaf has a site, its position and the slots it is moved into one after another.
-/

namespace Ideograph

open Number

/-- A leaf of an expression, its position, and the slots around it from the innermost one. -/
structure Site (α : Type) where
  char : Char
  position : Option Position
  slots : List (Slot α)
  deriving DecidableEq, Repr

/-- The same leaf with one more slot around it. -/
def Site.within {α : Type} (site : Site α) (slot : Slot α) : Site α :=
  { site with slots := site.slots ++ [slot] }

namespace Renderer

variable {α : Type} [Scalar α]

/-- The tokens with which the first two operands begin. -/
def roots (op : Operator) (operands : Fin op.arity → Expr) : Option Char × Option Char :=
  let roots := List.ofFn fun i => (operands i).root
  (roots[0]?, roots[1]?)

/-- Draw an expression inside at most `levels - 1` operators. -/
def tree (r : Renderer α) (fontSize : α) :
    Expr → Nat → Option Position → Traced (List String)
  | _, 0, _ => .fail (.tooDeep r.maxDepth)
  | .leaf c _, _ + 1, position => r.leaf fontSize position c
  | .node op operands, levels + 1, _ => do
    let (first, second) := roots op operands
    let drawings := List.ofFn fun i => tree r fontSize (operands i) levels
    let slots := op.slots first second fontSize r.parts
    let layers ← (drawings.zip slots).mapM fun (draw, slot) => do
      return Layer.mk (← draw slot.position) slot
    .lift (compose layers)

/-- The sites of the leaves of an expression from left to right. -/
def sites (r : Renderer α) (fontSize : α) : Expr → Option Position → List (Site α)
  | .leaf c _, position => [⟨c, position, []⟩]
  | .node op operands, _ =>
    let (first, second) := roots op operands
    let inner := List.ofFn fun i => sites r fontSize (operands i)
    (inner.zip (op.slots first second fontSize r.parts)).flatMap fun (sites, slot) =>
      (sites slot.position).map (·.within slot)

/-- The fragment is that of the leaf of a site, moved into the slots around it. -/
def DrawsSite (r : Renderer α) (fontSize : α) (site : Site α) (fragment : String) : Prop :=
  ∃ data, (r.leaf fontSize site.position site.char).outcome = .ok [data] ∧
    site.slots.foldlM (fun data slot => slot.placement.placeData drawingPlaces data) data =
      .ok fragment

end Renderer

end Ideograph
