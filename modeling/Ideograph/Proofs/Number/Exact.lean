import Mathlib.Tactic.Ring
import Ideograph.Proofs.Number.Value

/-! # Exact coordinates

In exact arithmetic a coordinate is rounded once, to the nearest multiple of its last place, and
its text is read as the rounded coordinate. Rounding moves it by half a place at most, and moves
nothing over a bound that is itself rounded.
-/

namespace Ideograph.Number

section Integers

variable {q : Rat}

theorem nearestEven_intCast (n : Int) : nearestEven n = n :=
  le_antisymm (nearestEven_le le_rfl) (le_nearestEven le_rfl)

theorem abs_nearestAway_sub_le (q : Rat) : |nearestAway q - q| ≤ 1 / 2 := by
  rw [nearestAway, abs_le]
  split
  · have hlow := Rat.floor_le (1 / 2 - q)
    have hhigh := Rat.lt_floor_add_one (1 / 2 - q)
    push_cast at hhigh ⊢
    constructor <;> linarith
  · have hlow := Rat.floor_le (q + 1 / 2)
    have hhigh := Rat.lt_floor_add_one (q + 1 / 2)
    push_cast at hhigh
    constructor <;> linarith

theorem nearestAway_nonneg (h : 0 ≤ q) : 0 ≤ nearestAway q := by
  rw [nearestAway, if_neg (not_lt.mpr h), Rat.le_floor_iff]
  push_cast
  linarith

theorem lt_nearestAway_add (h : 0 ≤ q) : q < nearestAway q + 1 / 2 := by
  have hhigh := Rat.lt_floor_add_one (q + 1 / 2)
  push_cast at hhigh
  rw [nearestAway, if_neg (not_lt.mpr h)]
  linarith

theorem nearestAway_le_of_lt {n : Int} (hq : 0 ≤ q) (h : q < n + 1 / 2) : nearestAway q ≤ n := by
  have hlt : (q + 1 / 2).floor < n + 1 := by
    rw [Rat.floor_lt_iff]
    push_cast
    linarith
  rw [nearestAway, if_neg (not_lt.mpr hq)]
  exact Int.lt_add_one_iff.mp hlt

end Integers

variable {places : Nat}

theorem ofDecimal_rat (d : Decimal) : (Scalar.ofDecimal d : Rat) = d.toRat := by
  have hmagnitude : (OfScientific.ofScientific d.significand (decide (d.exponent < 0))
      d.exponent.natAbs : Rat) = d.significand * (10 : Rat) ^ d.exponent := by
    rw [Rat.ofScientific_def', exponent_eq]
  rw [Decimal.toRat, ← hmagnitude]
  rfl

theorem roundTo_rat (hplaces : places ≤ Scalar.maxPlaces) (x : Rat) :
    Scalar.roundTo places x = nearestAway (x * 10 ^ places) / 10 ^ places := by
  have hfactor : (OfScientific.ofScientific 1 false (min places Scalar.maxPlaces) : Rat) =
      10 ^ places := by
    rw [min_eq_left hplaces, Rat.ofScientific_def']
    simp
  change (nearestAway (x * OfScientific.ofScientific 1 false (min places Scalar.maxPlaces)) : Rat) /
    OfScientific.ofScientific 1 false (min places Scalar.maxPlaces) = _
  rw [hfactor]

/-- The text of an exact coordinate is read as the rounded coordinate. -/
theorem reread?_rat (hplaces : places ≤ Scalar.maxPlaces) (x : Rat) :
    Scalar.reread? places x = some (Scalar.roundTo places x) := by
  set n := nearestAway (x * 10 ^ places) with hn
  set q : Rat := Scalar.roundTo places x with hq
  have hround : q = n / 10 ^ places := roundTo_rat hplaces x
  have htext : Scalar.text places x = (Numeral.ofFixed places (decide (q < 0)) q).written.text :=
    Scalar.text_of_toFixed (Numeral.text_ofFixed places (decide (q < 0)) q).symm
  have hscaled : |q| * 10 ^ places = (|n| : Int) := by
    rw [hround, abs_div, abs_of_pos (by positivity : (0 : Rat) < 10 ^ places)]
    push_cast
    field_simp
  have hcast : ((|n|.toNat : Nat) : Rat) = ((|n| : Int) : Rat) := by
    exact_mod_cast congrArg (Int.cast : Int → Rat) (Int.toNat_of_nonneg (abs_nonneg n))
  have hmagnitude : (Numeral.ofFixed places (decide (q < 0)) q).magnitude = |q| := by
    rw [Numeral.ofFixed, Numeral.magnitude_ofScaled, Binary.rat_abs_eq, hscaled,
      nearestEven_intCast, hcast, ← hscaled]
    field_simp
  have hsign : (if decide (q < 0) = true then -|q| else |q|) = q := by
    split
    · next hneg => rw [abs_of_neg (of_decide_eq_true hneg), neg_neg]
    · next hpos => exact abs_of_nonneg (not_lt.mp (by simpa using hpos))
  rw [Scalar.reread?_of_text htext, ofDecimal_rat, Numeral.toRat_written, Numeral.toRat_decimal,
    hmagnitude]
  exact congrArg some hsign

/-- An exact coordinate is rounded by half a unit of its last place at most. -/
theorem abs_roundTo_sub_le (hplaces : places ≤ Scalar.maxPlaces) (x : Rat) :
    |Scalar.roundTo places x - x| ≤ 1 / 2 / 10 ^ places := by
  have hpow : (0 : Rat) < 10 ^ places := by positivity
  have hdiff : Scalar.roundTo places x - x =
      (nearestAway (x * 10 ^ places) - x * 10 ^ places) / 10 ^ places := by
    rw [roundTo_rat hplaces]
    field_simp
  rw [hdiff, abs_div, abs_of_pos hpow]
  gcongr
  exact abs_nearestAway_sub_le _

end Ideograph.Number
