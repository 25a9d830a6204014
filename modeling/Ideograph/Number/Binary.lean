import Ideograph.Number.Rounding

/-! # Binary floating-point numbers

A format is given by the width of its significand and of its exponent field. A number of the
format is an integer significand times a power of two, an infinity, or not a number. Arithmetic
on finite numbers is exact rational arithmetic followed by one rounding to the nearest number of
the format, ties to the even significand; the rest is rules for infinities, for what is not a
number, and for the sign of a zero.
-/

namespace Ideograph.Number

/-- The widths that fix a binary format. -/
structure Format where
  precision : Nat
  exponentWidth : Nat
  deriving DecidableEq, Repr

namespace Format

/-- Half of the range of the exponent field. -/
def bias (f : Format) : Nat :=
  1 <<< (f.exponentWidth - 1) - 1

/-- The exponent of the last place of the numbers nearest to zero. -/
def minExponent (f : Format) : Int :=
  2 - (f.bias + f.precision : Nat)

/-- The exponent of the last place of the largest finite numbers. -/
def maxExponent (f : Format) : Int :=
  f.bias + 1 - f.precision

/-- A significand is normalised as far as the least exponent allows, so that every finite value
apart from zero has one representation. -/
def Fits (f : Format) (significand : Nat) (exponent : Int) : Prop :=
  significand.log2 < f.precision ∧
    f.minExponent ≤ exponent ∧ exponent ≤ f.maxExponent ∧
    (significand.log2 + 1 < f.precision → exponent = f.minExponent)

instance instDecidableFits (f : Format) (significand : Nat) (exponent : Int) :
    Decidable (f.Fits significand exponent) :=
  inferInstanceAs (Decidable (_ ∧ _ ∧ _ ∧ (_ → _)))

/-- The format of eight bytes. -/
def double : Format := ⟨53, 11⟩

/-- The format of four bytes. -/
def single : Format := ⟨24, 8⟩

end Format

/-- A number of a binary format. -/
inductive Binary (f : Format) where
  | nan
  | infinite (negative : Bool)
  | finite (negative : Bool) (significand : Nat) (exponent : Int)
      (fits : f.Fits significand exponent)
  deriving DecidableEq

namespace Binary

variable {f : Format}

/-- The sign, which a zero has too. -/
def isNegative : Binary f → Bool
  | nan => false
  | infinite negative => negative
  | finite negative .. => negative

def isFinite : Binary f → Bool
  | finite .. => true
  | _ => false

def isNaN : Binary f → Bool
  | nan => true
  | _ => false

/-- The exact value of a finite number. -/
def toRat : Binary f → Rat
  | finite negative significand exponent _ =>
    let magnitude := (significand : Rat) * (2 : Rat) ^ exponent
    if negative then -magnitude else magnitude
  | _ => 0

/-- A significand with a place for its last bit, or an infinity where the format ends. -/
def ofParts (negative : Bool) (significand : Nat) (exponent : Int) : Binary f :=
  if h : f.Fits significand exponent then finite negative significand exponent h
  else infinite negative

def zero (negative : Bool) : Binary f :=
  ofParts negative 0 f.minExponent

/-- The number of the format nearest to `q`; `zeroSign` is the sign of an exact zero. -/
def nearest (zeroSign : Bool) (q : Rat) : Binary f :=
  if q = 0 then zero zeroSign
  else
    let negative := decide (q < 0)
    let exponent := max f.minExponent (floorLog2 q.abs + 1 - f.precision)
    let significand := (nearestEven (q.abs / (2 : Rat) ^ exponent)).toNat
    if significand.log2 < f.precision then ofParts negative significand exponent
    else ofParts negative (significand / 2) (exponent + 1)

def ofInt (n : Int) : Binary f :=
  nearest false n

def neg : Binary f → Binary f
  | nan => nan
  | infinite negative => infinite (!negative)
  | finite negative significand exponent fits => finite (!negative) significand exponent fits

def abs : Binary f → Binary f
  | nan => nan
  | infinite _ => infinite false
  | finite _ significand exponent fits => finite false significand exponent fits

/-- A sum of two zeros is negative only if both are. -/
def add : Binary f → Binary f → Binary f
  | nan, _ => nan
  | _, nan => nan
  | infinite s, infinite t => if s = t then infinite s else nan
  | infinite s, finite .. => infinite s
  | finite .., infinite t => infinite t
  | x@(finite ..), y@(finite ..) =>
    nearest (x.isNegative && y.isNegative) (x.toRat + y.toRat)

def sub (x y : Binary f) : Binary f :=
  x.add y.neg

def mul (x y : Binary f) : Binary f :=
  let negative := x.isNegative ^^ y.isNegative
  match x, y with
  | nan, _ => nan
  | _, nan => nan
  | infinite _, finite _ n _ _ => if n = 0 then nan else infinite negative
  | finite _ m _ _, infinite _ => if m = 0 then nan else infinite negative
  | infinite _, infinite _ => infinite negative
  | finite .., finite .. => nearest negative (x.toRat * y.toRat)

def div (x y : Binary f) : Binary f :=
  let negative := x.isNegative ^^ y.isNegative
  match x, y with
  | nan, _ => nan
  | _, nan => nan
  | infinite _, infinite _ => nan
  | infinite _, finite .. => infinite negative
  | finite .., infinite _ => zero negative
  | finite _ m _ _, finite _ n _ _ =>
    if n = 0 then if m = 0 then nan else infinite negative
    else nearest negative (x.toRat / y.toRat)

/-- `x * y + z` with a single rounding. -/
def fusedMulAdd (x y z : Binary f) : Binary f :=
  match x, y, z with
  | finite .., finite .., finite .. =>
    nearest ((x.isNegative ^^ y.isNegative) && z.isNegative) (x.toRat * y.toRat + z.toRat)
  | finite .., finite .., _ => z
  | _, _, _ => (x.mul y).add z

/-- The remainder of division toward zero, which has the sign of `x`. -/
def rem (x y : Binary f) : Binary f :=
  match x, y with
  | finite .., finite _ n _ _ =>
    if n = 0 then nan
    else nearest x.isNegative (x.toRat - truncate (x.toRat / y.toRat) * y.toRat)
  | finite .., infinite _ => x
  | _, _ => nan

/-- The nearest integer, halves away from zero. -/
def roundAway (x : Binary f) : Binary f :=
  match x with
  | finite .. => nearest x.isNegative (nearestAway x.toRat)
  | _ => x

/-- The least integer that is not below. -/
def ceil (x : Binary f) : Binary f :=
  match x with
  | finite .. => nearest x.isNegative x.toRat.ceil
  | _ => x

/-- The comparison of numbers: what is not a number differs from everything, and the two zeros
are equal. -/
def eq : Binary f → Binary f → Bool
  | infinite s, infinite t => s == t
  | x@(finite ..), y@(finite ..) => x.toRat == y.toRat
  | _, _ => false

def lt : Binary f → Binary f → Bool
  | nan, _ => false
  | _, nan => false
  | infinite s, infinite t => s && !t
  | infinite s, finite .. => s
  | finite .., infinite t => !t
  | x@(finite ..), y@(finite ..) => decide (x.toRat < y.toRat)

def le (x y : Binary f) : Bool :=
  x.lt y || x.eq y

/-- The greater of two numbers, or the one that is a number. -/
def max (x y : Binary f) : Binary f :=
  if x.isNaN || x.lt y then y else x

/-- The lesser of two numbers, or the one that is a number. -/
def min (x y : Binary f) : Binary f :=
  if x.isNaN || y.lt x then y else x

/-- Read a number of one format in another. -/
def convert {g : Format} (x : Binary f) : Binary g :=
  match x with
  | nan => nan
  | infinite negative => infinite negative
  | finite negative .. => nearest negative x.toRat

instance instAdd : Add (Binary f) := ⟨add⟩
instance instSub : Sub (Binary f) := ⟨sub⟩
instance instMul : Mul (Binary f) := ⟨mul⟩
instance instDiv : Div (Binary f) := ⟨div⟩
instance instNeg : Neg (Binary f) := ⟨neg⟩
instance instMod : Mod (Binary f) := ⟨rem⟩
instance instInhabited : Inhabited (Binary f) := ⟨nan⟩

/-- Equality of numbers, not of representations. -/
instance instBEq : BEq (Binary f) := ⟨eq⟩

instance instLT : LT (Binary f) := ⟨fun x y => x.lt y = true⟩
instance instLE : LE (Binary f) := ⟨fun x y => x.le y = true⟩

instance instDecidableLT (x y : Binary f) : Decidable (x < y) :=
  inferInstanceAs (Decidable (x.lt y = true))

instance instDecidableLE (x y : Binary f) : Decidable (x ≤ y) :=
  inferInstanceAs (Decidable (x.le y = true))

/-! ## Bit patterns -/

/-- The interchange pattern: sign, biased exponent, and the significand without the leading bit
of a normal number. -/
def toBits (x : Binary f) : Nat :=
  let places := f.precision - 1
  let topExponent := 1 <<< f.exponentWidth - 1
  let sign := x.isNegative.toNat <<< (f.exponentWidth + places)
  match x with
  | nan => topExponent <<< places + 1 <<< (places - 1)
  | infinite _ => sign + topExponent <<< places
  | finite _ significand exponent _ =>
    if significand.log2 < places then sign + significand
    else sign + (exponent - f.minExponent).toNat <<< places + significand

def ofBits (bits : Nat) : Binary f :=
  let places := f.precision - 1
  let topExponent := 1 <<< f.exponentWidth - 1
  let negative := (bits >>> (f.exponentWidth + places)) % 2 == 1
  let biased := (bits >>> places) % (topExponent + 1)
  let fraction := bits % (1 <<< places)
  if biased = topExponent then if fraction = 0 then infinite negative else nan
  else if biased = 0 then ofParts negative fraction f.minExponent
  else ofParts negative (1 <<< places + fraction) (f.minExponent + (biased - 1 : Nat))

end Binary

/-- Numbers of eight bytes, in which coordinates are computed. -/
abbrev Double := Binary .double

/-- Numbers of four bytes, in which font outlines are computed. -/
abbrev Single := Binary .single

end Ideograph.Number
