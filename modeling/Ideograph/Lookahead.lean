import Ideograph.Operator

/-! # Looking past an expression

An expression is a leaf, or an operator followed by as many expressions as it takes operands. The
end of one is found by counting the expressions that are still owed, without building any.
-/

namespace Ideograph

/-- Drop as many complete expressions as are owed; nothing remains where the tokens run out. -/
def skipOwed : Nat → List Char → List Char
  | 0, rest => rest
  | _ + 1, [] => []
  | owed + 1, token :: rest => skipOwed (owed + arityOf token) rest

/-- Drop the first complete expression. -/
def skip (tokens : List Char) : List Char :=
  skipOwed 1 tokens

/-- The token with which the second of several operands begins. -/
def secondRoot? (operands : List Char) : Option Char :=
  (skip operands).head?

end Ideograph
