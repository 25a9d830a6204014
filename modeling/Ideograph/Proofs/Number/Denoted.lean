import Ideograph.Proofs.Number.Order

/-! # The number that a coordinate is written as

A coordinate is rounded four times: the product with the power of ten, the whole number of last
places, the quotient, and the decimals that are written. Each of these keeps order and takes
opposite numbers to opposite ones, and so does the number that the text denotes.
-/

namespace Ideograph.Number

/-- The number that a text denotes, if the text is the notation of one number as a whole. -/
def Decimal.denoted? (cs : List Char) : Option Rat :=
  match take cs with
  | some (d, []) => some d.toRat
  | _ => none

theorem Numeral.denoted?_text (n : Numeral) :
    Decimal.denoted? n.text = some n.decimal.toRat := by
  have htake := Decimal.take_text_append n Decimal.stops_nil
  rw [List.append_nil] at htake
  rw [Decimal.denoted?, htake]

/-- The value to which a coordinate with the exact value `q` is rounded. -/
def roundedTo (places : Nat) (q : Rat) : Rat :=
  let factor : Rat := 10 ^ min places Scalar.maxPlaces
  Format.double.rounded
    (Format.double.rounded (nearestAway (Format.double.rounded (q * factor))) / factor)

/-- The value that the text of a coordinate with the exact value `q` denotes. -/
def denotedValue (places : Nat) (q : Rat) : Rat :=
  nearestEven (roundedTo places q * 10 ^ places) / 10 ^ places

section Laws

variable {places : Nat} {q r : Rat}

theorem roundedTo_neg (places : Nat) (q : Rat) : roundedTo places (-q) = -roundedTo places q := by
  simp only [roundedTo, neg_mul, Format.rounded_neg, nearestAway_neg, Int.cast_neg, neg_div]

theorem roundedTo_mono (h : q ≤ r) : roundedTo places q ≤ roundedTo places r := by
  have hf := Format.valid_double
  have hproduct := Format.rounded_mono hf
    (mul_le_mul_of_nonneg_right h (by positivity : (0 : Rat) ≤ 10 ^ min places Scalar.maxPlaces))
  have hplaces : (nearestAway _ : Rat) ≤ nearestAway _ := Int.cast_le.mpr (nearestAway_mono hproduct)
  refine Format.rounded_mono hf ?_
  gcongr
  exact Format.rounded_mono hf hplaces

theorem denotedValue_neg (places : Nat) (q : Rat) :
    denotedValue places (-q) = -denotedValue places q := by
  simp only [denotedValue, roundedTo_neg, neg_mul, nearestEven_neg, Int.cast_neg, neg_div]

theorem denotedValue_mono (h : q ≤ r) : denotedValue places q ≤ denotedValue places r := by
  rw [denotedValue, denotedValue]
  gcongr
  exact nearestEven_mono (by gcongr; exact roundedTo_mono h)

end Laws

section Double

variable {places : Nat} {x : Double}

theorem toRat_decimalFactor_min (places : Nat) :
    (decimalFactor places).toRat = 10 ^ min places Scalar.maxPlaces := by
  have hfactor : decimalFactor places = decimalFactor (min places Scalar.maxPlaces) := by
    rw [decimalFactor, decimalFactor, min_eq_left (min_le_right _ _)]
  rw [hfactor, toRat_decimalFactor (min_le_right _ _)]

/-- A coordinate that stays finite is rounded to the value for its exact value. -/
theorem toRat_roundTo (h : (x * decimalFactor places).isFinite = true) :
    (Scalar.roundTo places x).toRat = roundedTo places x.toRat := by
  have hf := Format.valid_double
  obtain ⟨hfactor, hone⟩ := decimalFactor_spec places
  have hround : (x * decimalFactor places).roundAway.isFinite = true :=
    (Binary.isFinite_roundAway hf _).trans h
  have hquotient : ((x * decimalFactor places).roundAway / decimalFactor places).isFinite = true :=
    (Binary.isFinite_div hf hfactor hone).trans hround
  have hplaces : (x * decimalFactor places).roundAway.toRat =
      Format.double.rounded (nearestAway (x * decimalFactor places).toRat) := by
    obtain ⟨zeroSign, heq⟩ := Binary.roundAway_eq_nearest h
    rw [heq] at hround ⊢
    exact Binary.toRat_nearest_eq_rounded hf hround
  obtain ⟨zeroSign, heq⟩ := Binary.div_eq_nearest hround hfactor (by linarith)
  change ((x * decimalFactor places).roundAway / decimalFactor places).toRat = _
  rw [heq] at hquotient ⊢
  rw [Binary.toRat_nearest_eq_rounded hf hquotient, hplaces, Binary.toRat_mul hf h,
    toRat_decimalFactor_min, roundedTo]

/-- The sign of a finite number is that of its value, apart from zero. -/
theorem Binary.toRat_eq_of_isNegative {f : Format} {x : Binary f} (h : x.isFinite = true) :
    x.toRat = if x.isNegative then -|x.toRat| else |x.toRat| := by
  cases x with
  | nan | infinite => cases h
  | finite negative =>
    rw [abs_toRat_finite]
    rfl

/-- The text of a coordinate denotes a number, and this number depends on its value alone. -/
theorem denoted?_text (h : (x * decimalFactor places).isFinite = true) :
    Decimal.denoted? (Scalar.text places x) = some (denotedValue places x.toRat) := by
  have hfinite := (isFinite_roundTo places x).trans h
  have hsign := Binary.toRat_eq_of_isNegative hfinite
  rw [toRat_roundTo h] at hsign
  set negative := (Scalar.roundTo places x).isNegative
  set value := roundedTo places x.toRat
  have hcast : ((nearestEven (|value| * 10 ^ places)).toNat : Rat) =
      nearestEven (|value| * 10 ^ places) := by
    have hnonneg : 0 ≤ nearestEven (|value| * 10 ^ places) :=
      le_nearestEven (by push_cast; positivity)
    exact_mod_cast congrArg (Int.cast : Int → Rat) (Int.toNat_of_nonneg hnonneg)
  have hdenoted : (Numeral.ofFixed places negative value).decimal.toRat =
      nearestEven (value * 10 ^ places) / 10 ^ places := by
    rw [Numeral.toRat_decimal, Numeral.ofFixed, Numeral.magnitude_ofScaled, Binary.rat_abs_eq, hcast]
    change (if negative then _ else _) = _
    split at hsign
    · next hnegative =>
      rw [if_pos hnegative, hsign, abs_neg, abs_abs, neg_mul, nearestEven_neg, Int.cast_neg, neg_div]
    · next hpositive => rw [if_neg hpositive, hsign, abs_abs]
  rw [text_eq_written hfinite, Numeral.denoted?_text, Numeral.toRat_written, toRat_roundTo h,
    hdenoted, denotedValue]

end Double

end Ideograph.Number
