import Ideograph.Path.Reader

/-! # Errors

Why a sequence of tokens cannot be drawn.
-/

namespace Ideograph

/-- How a sequence fails to be one expression. -/
inductive Malformation where
  | empty
  | missingOperand (operator : Char) (expected found : Nat)
  | trailing (count : Nat)
  deriving DecidableEq, Repr

def Malformation.message : Malformation → String
  | empty => "empty sequence"
  | missingOperand operator expected found =>
    operator.toString ++ " expects " ++ toString expected ++ " operands, found " ++
      toString found
  | trailing count => toString count ++ " unconsumed trailing token(s)"

/-- Why a sequence cannot be drawn. Positions count tokens. -/
inductive RenderError where
  | malformed (position : Nat) (reason : Malformation)
  | unsupported (c : Char)
  | tooDeep (limit : Nat)
  | path (fault : Path.Fault)
  deriving DecidableEq, Repr

def RenderError.message : RenderError → String
  | malformed position reason =>
    "malformed sequence at " ++ toString position ++ ": " ++ reason.message
  | unsupported c =>
    "unsupported character " ++ Text.quotedChar c ++ " (" ++ Text.codePoint c ++ ")"
  | tooDeep limit => "nesting exceeds the maximum depth of " ++ toString limit
  | path fault => fault.message

end Ideograph
