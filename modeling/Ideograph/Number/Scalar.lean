import Ideograph.Number.Decimal

/-! # The arithmetic of coordinates

Drawings are computed in `Double`. The same computations over `Rat` are the exact figures that
the rounded ones approximate, so both are instances of one class. Its text form rounds halves away
from zero and drops zeros that carry no value.
-/

namespace Ideograph.Number

/-- An arithmetic in which coordinates can be read, moved and written. -/
class Scalar (α : Type) extends Add α, Sub α, Mul α, Div α, Neg α, BEq α, OfScientific α where
  fusedMulAdd : α → α → α → α
  roundAway : α → α
  toFixed : Nat → α → List Char
  toDouble : α → Double
  ofDouble : Double → α

instance instScalarDouble : Scalar Double where
  fusedMulAdd := Binary.fusedMulAdd
  roundAway := Binary.roundAway
  toFixed := Binary.toFixed
  toDouble := id
  ofDouble := id

instance instScalarRat : Scalar Rat where
  fusedMulAdd x y z := x * y + z
  roundAway q := nearestAway q
  toFixed places q := fixed places (decide (q < 0)) q
  toDouble := Binary.nearest false
  ofDouble := Binary.toRat

namespace Scalar

variable {α : Type} [Scalar α]

def ofDecimal (d : Decimal) : α :=
  let magnitude : α :=
    OfScientific.ofScientific d.significand (decide (d.exponent < 0)) d.exponent.natAbs
  if d.negative then -magnitude else magnitude

/-- The most decimals to which a coordinate is rounded. -/
def maxPlaces : Nat := 15

/-- Round to `places` decimals, halves away from zero. -/
def roundTo (places : Nat) (x : α) : α :=
  let factor : α := OfScientific.ofScientific 1 false (min places maxPlaces)
  roundAway (x * factor) / factor

/-- Drop the zeros that end a fraction, and a point that ends a number. -/
def trimFraction (cs : List Char) : List Char :=
  if cs.contains '.' then
    ((cs.reverse.dropWhile (· == '0')).dropWhile (· == '.')).reverse
  else cs

/-- Write a coordinate with at most `places` decimals. A zero has no sign. -/
def text (places : Nat) (x : α) : List Char :=
  let cs := trimFraction (toFixed places (roundTo places x))
  if cs = ['-', '0'] then ['0'] else cs

end Scalar

end Ideograph.Number
