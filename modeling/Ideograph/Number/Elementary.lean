import Ideograph.Number.Decimal

/-! # Elementary functions

Roots, powers and angles of numbers of eight bytes, by way of the machine's own functions.
-/

namespace Ideograph.Number.Double

def ofFloat (x : Float) : Double :=
  Binary.ofBits x.toBits.toNat

def toFloat (x : Double) : Float :=
  Float.ofBits (UInt64.ofNat x.toBits)

def sqrt (x : Double) : Double :=
  ofFloat x.toFloat.sqrt

def sin (x : Double) : Double :=
  ofFloat x.toFloat.sin

def cos (x : Double) : Double :=
  ofFloat x.toFloat.cos

def tan (x : Double) : Double :=
  ofFloat x.toFloat.tan

/-- The angle of the vector with the coordinates `x` and `y`. -/
def atan2 (y x : Double) : Double :=
  ofFloat (Float.atan2 y.toFloat x.toFloat)

def pow (x y : Double) : Double :=
  ofFloat (Float.pow x.toFloat y.toFloat)

/-- Half of the circumference of the unit circle. -/
def pi : Double := 3.141592653589793

def radiansOfDegrees (x : Double) : Double :=
  x * (pi / 180.0)

end Ideograph.Number.Double
