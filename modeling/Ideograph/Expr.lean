import Ideograph.Operator

/-! # Expressions

An expression is a leaf, or an operator with as many expressions as it takes operands. A sequence
lists its tokens with every operator before its operands.
-/

namespace Ideograph

inductive Expr where
  | leaf (c : Char) (isLeaf : Operator.ofChar? c = none)
  | node (op : Operator) (operands : Fin op.arity → Expr)

namespace Expr

/-- The token with which an expression begins. -/
def root : Expr → Char
  | leaf c _ => c
  | node op _ => op.toChar

/-- The tokens of an expression. -/
def tokens : Expr → List Char
  | leaf c _ => [c]
  | node op operands => op.toChar :: (List.ofFn fun i => (operands i).tokens).flatten

/-- The leaves of an expression from left to right. -/
def leaves : Expr → List Char
  | leaf c _ => [c]
  | node _ operands => (List.ofFn fun i => (operands i).leaves).flatten

/-- The greatest number of operators around a leaf. -/
def height : Expr → Nat
  | leaf _ _ => 0
  | node _ operands => (List.ofFn fun i => (operands i).height).foldl max 0 + 1

theorem head?_tokens (e : Expr) : e.tokens.head? = some e.root := by
  cases e <;> simp [tokens, root]

theorem tokens_ne_nil (e : Expr) : e.tokens ≠ [] := by
  cases e <;> simp [tokens]

end Expr

end Ideograph
