import Ideograph.Number.Binary

/-! # Decimal notation

Numbers are read from a sign, digits with at most one point, and an optional exponent. They are
written with a fixed number of places, from the exact value and without an exponent.
-/

namespace Ideograph.Number

/-- The number `± significand * 10 ^ exponent`. -/
structure Decimal where
  negative : Bool
  significand : Nat
  exponent : Int
  deriving DecidableEq, Repr

namespace Decimal

def toRat (d : Decimal) : Rat :=
  let magnitude := (d.significand : Rat) * (10 : Rat) ^ d.exponent
  if d.negative then -magnitude else magnitude

/-- The number that a run of digits denotes. -/
def natOfDigits (digits : List Char) : Nat :=
  digits.foldl (fun n c => 10 * n + (c.toNat - 48)) 0

/-- Split off a sign, which is positive when absent. -/
def takeSign : List Char → Bool × List Char
  | '-' :: rest => (true, rest)
  | '+' :: rest => (false, rest)
  | rest => (false, rest)

/-- Split off the digits before and after at most one point. -/
def takeMantissa (cs : List Char) : List Char × List Char × List Char :=
  let (whole, rest) := cs.span Char.isDigit
  match rest with
  | '.' :: rest =>
    let (fraction, rest) := rest.span Char.isDigit
    (whole, fraction, rest)
  | _ => (whole, [], rest)

/-- Split off an exponent, which is zero when absent. A mark without digits is an error. -/
def takeExponent : List Char → Option (Int × List Char)
  | [] => some (0, [])
  | c :: rest =>
    if c = 'e' ∨ c = 'E' then
      let (negative, rest) := takeSign rest
      let (digits, rest) := rest.span Char.isDigit
      if digits.isEmpty then none
      else
        let n : Int := natOfDigits digits
        some (if negative then -n else n, rest)
    else some (0, c :: rest)

/-- Read the longest number at the front, with what follows it. -/
def take (cs : List Char) : Option (Decimal × List Char) := do
  let (negative, rest) := takeSign cs
  let (whole, fraction, rest) := takeMantissa rest
  let (exponent, rest) ← takeExponent rest
  guard !(whole.isEmpty && fraction.isEmpty)
  return (⟨negative, natOfDigits (whole ++ fraction), exponent - fraction.length⟩, rest)

end Decimal

namespace Binary

variable {f : Format}

/-- The number of the format nearest to `significand * 10 ^ exponent`.

An exponent far outside the format decides alone, so that no power of it is computed. -/
def ofScientific (significand : Nat) (exponent : Int) : Binary f :=
  if significand = 0 then zero false
  else if f.maxExponent + f.precision < exponent then infinite false
  else if exponent < f.minExponent - significand.log2 - 2 then zero false
  else nearest false ((significand : Rat) * (10 : Rat) ^ exponent)

instance instOfScientific : OfScientific (Binary f) where
  ofScientific significand isFraction places :=
    ofScientific significand (if isFraction then -(places : Int) else places)

def ofDecimal (d : Decimal) : Binary f :=
  let magnitude := ofScientific d.significand d.exponent
  if d.negative then magnitude.neg else magnitude

/-- Read a text that is one number as a whole, or the name of an infinity or of no number. -/
def ofText? (text : String) : Option (Binary f) :=
  let (negative, name) := Decimal.takeSign text.toList
  let name := String.ofList (name.map Char.toLower)
  if name = "nan" then some nan
  else if name = "inf" ∨ name = "infinity" then some (infinite negative)
  else
    match Decimal.take text.toList with
    | some (d, []) => some (ofDecimal d)
    | _ => none

end Binary

/-- Write a nonnegative number with exactly `places` decimals, the nearest such number and of two
equally near ones the one with an even last digit. -/
def fixedMagnitude (places : Nat) (q : Rat) : List Char :=
  let scaled := (nearestEven (q * (10 : Rat) ^ places)).toNat
  let digits := (Nat.toDigits 10 scaled).leftpad (places + 1) '0'
  let whole := digits.take (digits.length - places)
  if places = 0 then whole else whole ++ '.' :: digits.drop (digits.length - places)

/-- Write a signed number with exactly `places` decimals. -/
def fixed (places : Nat) (negative : Bool) (q : Rat) : List Char :=
  if negative then '-' :: fixedMagnitude places q.abs else fixedMagnitude places q.abs

namespace Binary

variable {f : Format}

/-- Write a number with exactly `places` decimals; a zero keeps its sign. -/
def toFixed (places : Nat) : Binary f → List Char
  | nan => "NaN".toList
  | infinite negative => if negative then "-inf".toList else "inf".toList
  | x@(finite negative ..) => fixed places negative x.toRat

end Binary

end Ideograph.Number
