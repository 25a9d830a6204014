import Ideograph.Proofs.Number.Exact
import Ideograph.Proofs.Number.Precision

/-! # Coordinates that are settled

The text of a coordinate denotes a whole number of last places. The number that is read from it is
the nearest one, so rounding it again finds the same whole number and then the same number. Hence
a coordinate that was written once is written again digit by digit, up to a bound below which the
errors of reading and multiplying do not add up to half a place.
-/

namespace Ideograph.Number

namespace Binary

variable {f : Format}

theorem ofScientific_eq_nearest {significand : Nat} {exponent : Int} (hpos : significand ≠ 0)
    (hlow : f.minExponent ≤ exponent) (hhigh : exponent ≤ f.maxExponent + f.precision) :
    (ofScientific significand exponent : Binary f) =
      nearest false (significand * (10 : Rat) ^ exponent) := by
  rw [ofScientific, if_neg hpos, if_neg (not_lt.mpr hhigh), if_neg (by omega)]

/-- A number in decimal notation is read as the nearest one, if its exponent is not extreme. -/
theorem ofDecimal_eq_nearest {d : Decimal} (hlow : f.minExponent ≤ d.exponent)
    (hhigh : d.exponent ≤ f.maxExponent + f.precision) (hne : d.toRat ≠ 0) :
    (ofDecimal d : Binary f) = nearest false d.toRat := by
  have hpos : d.significand ≠ 0 := by
    intro hzero
    rw [Decimal.toRat, hzero] at hne
    simp at hne
  have hmagnitude : (d.significand : Rat) * (10 : Rat) ^ d.exponent ≠ 0 := by positivity
  rw [ofDecimal, Decimal.toRat]
  simp only [ofScientific_eq_nearest hpos hlow hhigh]
  split
  · exact neg_nearest false hmagnitude
  · rfl

/-- A number below a finite bound, whatever its sign, is finite and has a value below that of the
bound. -/
theorem lt_of_abs_lt {x bound : Binary f} (hbound : bound.isFinite = true) (h : x.abs < bound) :
    x.isFinite = true ∧ |x.toRat| < bound.toRat := by
  cases bound with
  | nan => cases hbound
  | infinite => cases hbound
  | finite =>
    cases x with
    | nan => cases h
    | infinite => cases h
    | finite =>
      refine ⟨rfl, ?_⟩
      rw [abs_toRat_finite]
      exact of_decide_eq_true h

end Binary

namespace Numeral

/-- A numeral of zero is written as a digit and nothing else. -/
theorem written_ofScaled_zero (negative : Bool) (places : Nat) :
    (ofScaled negative places 0).written = zero := by
  have hpadded : padded places 0 = List.replicate (places + 1) '0' := by
    rw [padded, List.leftpad, show Nat.toDigits 10 0 = ['0'] from rfl, List.replicate_succ']
    rfl
  have htrimmed : (ofScaled negative places 0).trimmed = { zero with negative := negative } := by
    simp [trimmed, ofScaled, hpadded, zero]
  rw [written, htrimmed]
  cases negative <;> rfl

theorem exponent_written (n : Numeral) :
    -(n.fraction.length : Int) ≤ n.written.decimal.exponent ∧ n.written.decimal.exponent ≤ 0 := by
  have htrimmed : n.trimmed.fraction.length ≤ n.fraction.length := by
    have hdrop := (List.dropWhile_suffix (l := n.fraction.reverse) (· == '0')).length_le
    simpa [trimmed] using hdrop
  rw [written]
  split
  · simp [decimal, zero]
  · simp only [decimal]
    omega

end Numeral

section Settled

variable {places : Nat} {z : Int}

theorem toRat_decimalFactor (hplaces : places ≤ Scalar.maxPlaces) :
    (decimalFactor places).toRat = 10 ^ places := by
  have hall : ∀ n : Fin 16, (OfScientific.ofScientific 1 false n.val : Double).toRat =
      10 ^ n.val := by
    decide +kernel
  rw [decimalFactor, min_eq_left hplaces]
  exact hall ⟨places, Nat.lt_succ_of_le hplaces⟩

/-- The coordinate nearest to a number of last places. -/
def ofPlaces (places : Nat) (z : Int) : Double :=
  Binary.nearest false (z / 10 ^ places)

/-- Numbers up to a high power of two are rounded within the range. -/
theorem isFinite_nearest_double (zeroSign : Bool) {q : Rat} (h : |q| ≤ 2 ^ 60) :
    (Binary.nearest zeroSign q : Double).isFinite = true := by
  refine Binary.isFinite_nearest Format.valid_double zeroSign (h.trans ?_)
  rw [Format.greatest]
  decide +kernel

/-- Where the least place is not too small, a number is rounded by a fraction of itself. -/
theorem abs_toRat_nearest_double_sub_le {zeroSign : Bool} {q : Rat}
    (hnormal : 1 / 10 ^ Scalar.maxPlaces ≤ |q|)
    (h : (Binary.nearest zeroSign q : Double).isFinite = true) :
    |(Binary.nearest zeroSign q : Double).toRat - q| ≤ |q| / 2 ^ 53 := by
  refine Binary.abs_toRat_nearest_sub_le Format.valid_double (le_trans ?_ hnormal) h
  decide +kernel

theorem isFinite_ofPlaces (places : Nat) (hbound : |(z : Rat)| ≤ 2 ^ 60) :
    (ofPlaces places z).isFinite = true := by
  refine isFinite_nearest_double false ?_
  have hpow : (1 : Rat) ≤ |(10 : Rat) ^ places| := by
    rw [abs_of_pos (by positivity)]
    exact one_le_pow₀ (by norm_num)
  rw [abs_div]
  calc |(z : Rat)| / |(10 : Rat) ^ places| ≤ |(z : Rat)| := div_le_self (abs_nonneg _) hpow
    _ ≤ 2 ^ 60 := hbound

section Places

variable (hplaces : places ≤ Scalar.maxPlaces) (hz : z ≠ 0)

include hplaces hz

theorem le_abs_places : 1 / 10 ^ Scalar.maxPlaces ≤ |(z : Rat) / 10 ^ places| := by
  have hone : (1 : Rat) ≤ |(z : Rat)| := by exact_mod_cast Int.one_le_abs hz
  have hpow : (0 : Rat) < 10 ^ places := by positivity
  rw [abs_div, abs_of_pos hpow]
  gcongr
  norm_num

/-- Reading a number of last places is off by a fraction of their number. -/
theorem abs_toRat_ofPlaces_sub_le (h : (ofPlaces places z).isFinite = true) :
    |(ofPlaces places z).toRat * 10 ^ places - z| ≤ |(z : Rat)| / 2 ^ 53 := by
  have hpow : (0 : Rat) < 10 ^ places := by positivity
  have hnear := abs_toRat_nearest_double_sub_le (le_abs_places hplaces hz) h
  rw [abs_mul_sub_eq hpow, ← le_div_iff₀ hpow]
  calc |(ofPlaces places z).toRat - z / 10 ^ places| ≤ |(z : Rat) / 10 ^ places| / 2 ^ 53 := hnear
    _ = |(z : Rat)| / 2 ^ 53 / 10 ^ places := by
        rw [abs_div, abs_of_pos hpow]
        ring

variable (hbound : |(z : Rat)| ≤ 2 ^ 50)

include hbound

/-- The product that is rounded is nearer to the number of last places than to any other. -/
theorem abs_toRat_mul_sub_lt : (ofPlaces places z * decimalFactor places).isFinite = true ∧
    |(ofPlaces places z * decimalFactor places).toRat - z| < 1 / 2 := by
  have hone : (1 : Rat) ≤ |(z : Rat)| := by exact_mod_cast Int.one_le_abs hz
  have hfinite := isFinite_ofPlaces places (hbound.trans (by norm_num))
  obtain ⟨zeroSign, hmul⟩ := Binary.mul_eq_nearest hfinite (decimalFactor_spec places).1
  rw [toRat_decimalFactor hplaces] at hmul
  have hread := abs_toRat_ofPlaces_sub_le hplaces hz hfinite
  set p := (ofPlaces places z).toRat * 10 ^ places
  have hsmall : |(z : Rat)| / 2 ^ 53 ≤ 1 / 8 := by
    rw [div_le_iff₀ (by positivity)]
    exact hbound.trans (by norm_num)
  have hlow : |(z : Rat)| ≤ |p| + 1 / 8 := by
    have := abs_sub_abs_le_abs_sub (z : Rat) p
    rw [abs_sub_comm] at this
    linarith
  have hhigh : |p| ≤ |(z : Rat)| + 1 / 8 := by
    have := abs_sub_abs_le_abs_sub p (z : Rat)
    linarith
  have hproduct : (Binary.nearest zeroSign p : Double).isFinite = true :=
    isFinite_nearest_double zeroSign (by linarith [hbound])
  have hnormal : 1 / 10 ^ Scalar.maxPlaces ≤ |p| :=
    le_trans (by norm_num [Scalar.maxPlaces]) (by linarith : (1 : Rat) / 2 ≤ |p|)
  have hround := abs_toRat_nearest_double_sub_le hnormal hproduct
  have hsmall' : |p| / 2 ^ 53 < 1 / 4 := by
    rw [div_lt_iff₀ (by positivity)]
    linarith
  rw [hmul]
  refine ⟨hproduct, ?_⟩
  calc |(Binary.nearest zeroSign p : Double).toRat - z|
      = |((Binary.nearest zeroSign p : Double).toRat - p) + (p - z)| := by ring_nf
    _ ≤ |(Binary.nearest zeroSign p : Double).toRat - p| + |p - z| := abs_add_le _ _
    _ < 1 / 2 := by linarith

/-- Rounded again, a number of last places stays the same coordinate. -/
theorem roundTo_ofPlaces : Scalar.roundTo places (ofPlaces places z) = ofPlaces places z := by
  obtain ⟨hproduct, hnear⟩ := abs_toRat_mul_sub_lt hplaces hz hbound
  have hnearest : nearestAway (ofPlaces places z * decimalFactor places).toRat = z :=
    int_eq_of_near (abs_nearestAway_sub_le _) hnear
  obtain ⟨zeroSign, hround⟩ := Binary.roundAway_eq_nearest hproduct
  rw [hnearest] at hround
  have hfinite : (Binary.nearest zeroSign (z : Rat) : Double).isFinite = true :=
    isFinite_nearest_double zeroSign (hbound.trans (by norm_num))
  have hexact : (Binary.nearest zeroSign (z : Rat) : Double).toRat = z := by
    refine Binary.toRat_nearest_intCast Format.valid_double zeroSign ?_ hfinite
    have hle : (z.natAbs : Rat) ≤ 2 ^ 50 := by rwa [Nat.cast_natAbs, Int.cast_abs]
    have hle' : z.natAbs ≤ 2 ^ 50 := by exact_mod_cast hle
    exact hle'.trans_lt (by decide)
  have hfactor : (decimalFactor places).toRat ≠ 0 := by
    rw [toRat_decimalFactor hplaces]
    positivity
  obtain ⟨zeroSign', hdiv⟩ := Binary.div_eq_nearest hfinite (decimalFactor_spec places).1 hfactor
  have hquotient : (z : Rat) / 10 ^ places ≠ 0 := by
    have : (z : Rat) ≠ 0 := Int.cast_ne_zero.mpr hz
    positivity
  calc Scalar.roundTo places (ofPlaces places z)
      = Binary.roundAway (ofPlaces places z * decimalFactor places) / decimalFactor places := rfl
    _ = Binary.nearest zeroSign' (z / 10 ^ places) := by
        rw [hround, hdiv, hexact, toRat_decimalFactor hplaces]
    _ = ofPlaces places z := Binary.nearest_eq_nearest zeroSign' false hquotient

/-- The text of a number of last places shows this number. -/
theorem text_ofPlaces : Scalar.text places (ofPlaces places z) =
    (Numeral.ofScaled (decide (z < 0)) places z.natAbs).written.text := by
  have hpow : (0 : Rat) < 10 ^ places := by positivity
  have hfinite := isFinite_ofPlaces places (hbound.trans (by norm_num))
  have hround := roundTo_ofPlaces hplaces hz hbound
  have hquotient : (z : Rat) / 10 ^ places ≠ 0 := by
    have : (z : Rat) ≠ 0 := Int.cast_ne_zero.mpr hz
    positivity
  have hsign : (ofPlaces places z).isNegative = decide (z < 0) := by
    rw [ofPlaces, Binary.isNegative_nearest false hquotient, decide_eq_decide,
      div_lt_iff₀ hpow, zero_mul, Int.cast_lt_zero]
  have hscaled : nearestEven ((ofPlaces places z).toRat.abs * 10 ^ places) = |z| := by
    refine int_eq_of_near (abs_nearestEven_sub_le _) ?_
    have hread := abs_toRat_ofPlaces_sub_le hplaces hz hfinite
    have hsmall : |(z : Rat)| / 2 ^ 53 < 1 / 2 := by
      rw [div_lt_iff₀ (by positivity)]
      exact hbound.trans_lt (by norm_num)
    calc |(ofPlaces places z).toRat.abs * 10 ^ places - (|z| : Int)|
        = |(|(ofPlaces places z).toRat * 10 ^ places| - |(z : Rat)|)| := by
          rw [Binary.rat_abs_eq, abs_mul, abs_of_pos hpow, Int.cast_abs]
      _ ≤ |(ofPlaces places z).toRat * 10 ^ places - z| := abs_abs_sub_abs_le _ _
      _ < 1 / 2 := hread.trans_lt hsmall
  have hnumeral : Numeral.ofFixed places (ofPlaces places z).isNegative (ofPlaces places z).toRat =
      Numeral.ofScaled (decide (z < 0)) places z.natAbs := by
    rw [Numeral.ofFixed, hscaled, hsign, Int.abs_eq_natAbs, Int.toNat_natCast]
  rw [text_eq_written (by rwa [hround]), hround, hnumeral]

end Places

/-- A zero of either sign is written as a digit. -/
theorem text_of_toRat_eq_zero {x : Double} (hfinite : x.isFinite = true) (hzero : x.toRat = 0) :
    Scalar.text places x = Numeral.zero.text := by
  have hnearest : ∀ s, (Binary.nearest s 0 : Double) = Binary.zero s := fun s => if_pos rfl
  have hfiniteZero : ∀ s, (Binary.zero s : Double).isFinite = true := by decide
  have hfactor : (decimalFactor places).toRat ≠ 0 := by
    linarith [(decimalFactor_spec places).2]
  obtain ⟨s, hmul⟩ := Binary.mul_eq_nearest hfinite (decimalFactor_spec places).1
  rw [hzero, zero_mul, hnearest] at hmul
  obtain ⟨s', hround⟩ := Binary.roundAway_eq_nearest (hfiniteZero s)
  rw [Binary.toRat_zero, show nearestAway 0 = 0 by decide +kernel, Int.cast_zero,
    hnearest] at hround
  obtain ⟨s'', hdiv⟩ := Binary.div_eq_nearest (hfiniteZero s') (decimalFactor_spec places).1 hfactor
  rw [Binary.toRat_zero, zero_div, hnearest] at hdiv
  have hrounded : Scalar.roundTo places x = Binary.zero s'' := by
    change Binary.roundAway (x * decimalFactor places) / decimalFactor places = _
    rw [hmul, hround, hdiv]
  have hscaled : (nearestEven ((0 : Rat).abs * 10 ^ places)).toNat = 0 := by
    rw [Binary.rat_abs_eq, abs_zero, zero_mul]
    decide +kernel
  rw [text_eq_written (by rw [hrounded]; exact hfiniteZero s''), hrounded, Binary.toRat_zero,
    Numeral.ofFixed, hscaled, Numeral.written_ofScaled_zero]

/-- A numeral that is not zero is read as the coordinate nearest to its last places. -/
theorem ofDecimal_written_ofScaled (hplaces : places ≤ Scalar.maxPlaces) {n : Nat} (hn : n ≠ 0)
    (negative : Bool) :
    (Scalar.ofDecimal (Numeral.ofScaled negative places n).written.decimal : Double) =
      ofPlaces places (if negative then -n else n) := by
  have hexponent := Numeral.exponent_written (Numeral.ofScaled negative places n)
  rw [Numeral.length_fraction_ofScaled] at hexponent
  have hmax : Scalar.maxPlaces = 15 := rfl
  have hminExponent : Format.double.minExponent = -1074 := by decide
  have hmaxExponent : Format.double.maxExponent + Format.double.precision = 1024 := by decide
  have hvalue : (Numeral.ofScaled negative places n).written.decimal.toRat =
      ((if negative then -n else n : Int) : Rat) / 10 ^ places := by
    rw [Numeral.toRat_written, Numeral.toRat_decimal, Numeral.magnitude_ofScaled]
    cases negative <;> simp [Numeral.ofScaled, neg_div]
  have hne : ((if negative then -n else n : Int) : Rat) / 10 ^ places ≠ 0 := by
    have : (n : Rat) ≠ 0 := Nat.cast_ne_zero.mpr hn
    cases negative <;> simp <;> positivity
  rw [ofDecimal_eq, Binary.ofDecimal_eq_nearest (by omega) (by omega) (by rwa [hvalue]), hvalue]
  rfl

/-- Up to the bound the text of a coordinate is written again as it is. -/
theorem text_rewritten (hplaces : places ≤ Scalar.maxPlaces) {x : Double}
    (hfinite : (x * decimalFactor places).isFinite = true)
    (hfinite' : (rewritten places x).isFinite = true)
    (hbound : |(rewritten places x).toRat| * 10 ^ places ≤ 2 ^ 49) :
    Scalar.text places (rewritten places x) = Scalar.text places x := by
  obtain ⟨negative, n, htext⟩ : ∃ negative n,
      Scalar.text places x = (Numeral.ofScaled negative places n).written.text :=
    ⟨_, _, text_eq_written ((isFinite_roundTo places x).trans hfinite)⟩
  have hread : rewritten places x =
      Scalar.ofDecimal (Numeral.ofScaled negative places n).written.decimal :=
    Option.some.inj ((ofText?_eq_reread? hfinite).2.symm.trans (Scalar.reread?_of_text htext))
  rw [hread] at hfinite' hbound ⊢
  rw [htext]
  by_cases hn : n = 0
  · subst hn
    rw [Numeral.written_ofScaled_zero]
    exact text_of_toRat_eq_zero (by decide) (by decide +kernel)
  · rw [ofDecimal_written_ofScaled hplaces hn] at hfinite' hbound ⊢
    set z : Int := if negative then -n else n with hz
    have hz' : z ≠ 0 := by
      rw [hz]
      split <;> omega
    have hplaced := abs_toRat_ofPlaces_sub_le hplaces hz' hfinite'
    have hle : |(z : Rat)| ≤ 2 ^ 50 := by
      have htriangle := abs_sub_abs_le_abs_sub (z : Rat) ((ofPlaces places z).toRat * 10 ^ places)
      rw [abs_sub_comm, abs_mul, abs_of_pos (by positivity : (0 : Rat) < 10 ^ places)] at htriangle
      linarith [abs_nonneg (z : Rat)]
    have hsign : decide (z < 0) = negative := by
      rw [hz]
      cases negative with
      | false => simp
      | true => simpa using Nat.pos_of_ne_zero hn
    have hnat : z.natAbs = n := by
      rw [hz]
      cases negative <;> simp
    rw [text_ofPlaces hplaces hz' hle, hsign, hnat]

end Settled

end Ideograph.Number
