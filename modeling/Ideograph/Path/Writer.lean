import Ideograph.Path.Basic

/-! # Writing path data

Every movement is a capital letter followed by its points. Coordinates are separated by single
spaces, and nothing stands between movements.
-/

namespace Ideograph

open Number

variable {α : Type} [Scalar α]

def Point.write (places : Nat) (p : Point α) : List Char :=
  Scalar.text places p.x ++ ' ' :: Scalar.text places p.y

def Element.letter : Element α → Char
  | moveTo _ => 'M'
  | lineTo _ => 'L'
  | quadTo .. => 'Q'
  | curveTo .. => 'C'
  | close => 'Z'

def Element.write (places : Nat) (e : Element α) : List Char :=
  e.letter :: List.intercalate [' '] (e.points.map (Point.write places))

/-- Write a path with at most `places` decimals in each coordinate. -/
def Path.write (places : Nat) (path : Path α) : String :=
  String.ofList (path.flatMap (Element.write places))

end Ideograph
