import Ideograph.Number.Scalar

/-! # Ideographic description operators

The fourteen operators each take two or three operands and arrange them by one of four rules.
Every other character is a leaf.
-/

namespace Ideograph

open Number

inductive Axis where
  | horizontal
  | vertical
  deriving DecidableEq, Repr

/-- How the operands of an operator share its box. -/
inductive Rule (α : Type) where
  /-- Two parts in a row, a small one in a narrow slot. -/
  | split (axis : Axis)
  /-- Three equal parts in a row. -/
  | thirds (axis : Axis)
  /-- The second part shrunk inside the first, at the given fractions of the box. -/
  | nest (dx dy : α)
  /-- Two parts on top of one another. -/
  | overlay
  deriving DecidableEq, Repr

inductive Operator where
  | leftToRight
  | aboveToBelow
  | leftToMiddleToRight
  | aboveToMiddleToBelow
  | fullSurround
  | surroundFromAbove
  | surroundFromBelow
  | surroundFromLeft
  | surroundFromUpperLeft
  | surroundFromUpperRight
  | surroundFromLowerLeft
  | overlaid
  | surroundFromRight
  | surroundFromLowerRight
  deriving DecidableEq, Repr

namespace Operator

/-- The operators in the order of their characters. -/
def all : List Operator :=
  [leftToRight, aboveToBelow, leftToMiddleToRight, aboveToMiddleToBelow, fullSurround,
    surroundFromAbove, surroundFromBelow, surroundFromLeft, surroundFromUpperLeft,
    surroundFromUpperRight, surroundFromLowerLeft, overlaid, surroundFromRight,
    surroundFromLowerRight]

def toChar : Operator → Char
  | leftToRight => '⿰'
  | aboveToBelow => '⿱'
  | leftToMiddleToRight => '⿲'
  | aboveToMiddleToBelow => '⿳'
  | fullSurround => '⿴'
  | surroundFromAbove => '⿵'
  | surroundFromBelow => '⿶'
  | surroundFromLeft => '⿷'
  | surroundFromUpperLeft => '⿸'
  | surroundFromUpperRight => '⿹'
  | surroundFromLowerLeft => '⿺'
  | overlaid => '⿻'
  | surroundFromRight => '⿼'
  | surroundFromLowerRight => '⿽'

def ofChar? : Char → Option Operator
  | '⿰' => some leftToRight
  | '⿱' => some aboveToBelow
  | '⿲' => some leftToMiddleToRight
  | '⿳' => some aboveToMiddleToBelow
  | '⿴' => some fullSurround
  | '⿵' => some surroundFromAbove
  | '⿶' => some surroundFromBelow
  | '⿷' => some surroundFromLeft
  | '⿸' => some surroundFromUpperLeft
  | '⿹' => some surroundFromUpperRight
  | '⿺' => some surroundFromLowerLeft
  | '⿻' => some overlaid
  | '⿼' => some surroundFromRight
  | '⿽' => some surroundFromLowerRight
  | _ => none

def arity : Operator → Nat
  | leftToMiddleToRight | aboveToMiddleToBelow => 3
  | _ => 2

def rule {α : Type} [Scalar α] : Operator → Rule α
  | leftToRight => .split .horizontal
  | aboveToBelow => .split .vertical
  | leftToMiddleToRight => .thirds .horizontal
  | aboveToMiddleToBelow => .thirds .vertical
  | fullSurround => .nest 0.175 0.16
  | surroundFromAbove => .nest 0.17 0.19
  | surroundFromBelow => .nest 0.17 0.1
  | surroundFromLeft => .nest 0.19 0.17
  | surroundFromUpperLeft => .nest (1.0 / 3.0) (1.0 / 3.0)
  | surroundFromUpperRight => .nest 0.0 (1.0 / 3.0)
  | surroundFromLowerLeft => .nest (1.0 / 3.0) 0.0
  | overlaid => .overlay
  | surroundFromRight => .nest 0.1 0.17
  | surroundFromLowerRight => .nest 0.0 0.0

@[simp] theorem ofChar?_toChar (op : Operator) : ofChar? op.toChar = some op := by
  cases op <;> rfl

theorem toChar_of_ofChar? {c : Char} {op : Operator} (h : ofChar? c = some op) :
    op.toChar = c := by
  unfold ofChar? at h
  split at h <;> cases h <;> rfl

theorem toChar_injective {op op' : Operator} (h : op.toChar = op'.toChar) : op = op' := by
  have hsome : some op = some op' := by rw [← ofChar?_toChar op, h, ofChar?_toChar]
  exact Option.some.inj hsome

theorem two_le_arity (op : Operator) : 2 ≤ op.arity := by
  cases op <;> decide

end Operator

/-- The number of operands that follow a token: none after a leaf. -/
def arityOf (token : Char) : Nat :=
  match Operator.ofChar? token with
  | some op => op.arity
  | none => 0

@[simp] theorem arityOf_toChar (op : Operator) : arityOf op.toChar = op.arity := by
  simp [arityOf]

theorem arityOf_of_leaf {c : Char} (h : Operator.ofChar? c = none) : arityOf c = 0 := by
  simp [arityOf, h]

end Ideograph
