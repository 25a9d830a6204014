/-! # Rounding rational numbers

Two roundings to the integers, which differ only on halves, and the binary order of magnitude
of a positive rational. Binary numbers round to even; written coordinates round away from zero.
-/

namespace Ideograph.Number

/-- The nearest integer; of two equally near ones, the even one. -/
def nearestEven (q : Rat) : Int :=
  let below := q.floor
  let rest := q - below
  if rest < 1 / 2 then below
  else if 1 / 2 < rest then below + 1
  else below + below % 2

/-- The nearest integer; of two equally near ones, the one farther from zero. -/
def nearestAway (q : Rat) : Int :=
  if q < 0 then -(1 / 2 - q).floor else (q + 1 / 2).floor

/-- The integer part, toward zero. -/
def truncate (q : Rat) : Int :=
  if q < 0 then -(-q).floor else q.floor

/-- The `k` with `2 ^ k ≤ q < 2 ^ (k + 1)`, for a positive `q`.

The bit lengths of numerator and denominator leave two candidates. -/
def floorLog2 (q : Rat) : Int :=
  let k : Int := q.num.natAbs.log2 - q.den.log2
  if q < (2 : Rat) ^ k then k - 1 else k

end Ideograph.Number
