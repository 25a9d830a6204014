import Ideograph.Proofs.Number.Order

/-! # Results that the format has

A number of a format is rounded to itself. So an operation whose exact result is a number of the
format gives it, whatever the signs of zeros are; and the text of a coordinate does not show them.
-/

namespace Ideograph.Number

namespace Format

/-- The finite numbers of a format. -/
def Represents (f : Format) (q : Rat) : Prop :=
  f.rounded q = q ∧ |q| ≤ f.greatest

theorem represents_mul_zpow {f : Format} {z e : Int} (hz : z.natAbs < 2 ^ f.precision)
    (hlow : f.minExponent ≤ e) (hhigh : e ≤ f.maxExponent) :
    f.Represents (z * (2 : Rat) ^ e) := by
  constructor
  · exact rounded_mul_zpow hz hlow
  · have hsignificand : |(z : Rat)| ≤ 2 ^ f.precision - 1 := by
      rw [← Int.cast_abs, Int.abs_eq_natAbs]
      have hle : ((z.natAbs : Int) : Rat) + 1 ≤ 2 ^ f.precision := by exact_mod_cast hz
      linarith
    rw [abs_mul, abs_of_pos (by positivity : (0 : Rat) < 2 ^ e), greatest]
    gcongr
    · exact sub_nonneg.mpr f.one_le_two_pow_precision
    · norm_num

end Format

namespace Binary

variable {f : Format} {x y : Binary f} {q r : Rat}

/-- A finite number, by its value. -/
def HasValue (x : Binary f) (q : Rat) : Prop :=
  x.isFinite = true ∧ x.toRat = q

theorem exists_toRat_eq (hx : x.isFinite = true) :
    ∃ z e : Int, z.natAbs < 2 ^ f.precision ∧ f.minExponent ≤ e ∧ e ≤ f.maxExponent ∧
      x.toRat = z * (2 : Rat) ^ e := by
  cases x with
  | nan | infinite => cases hx
  | finite negative significand exponent fits =>
    refine ⟨if negative then -significand else significand, exponent, ?_, fits.2.1, fits.2.2.1, ?_⟩
    · split <;> simpa using fits.lt
    · cases negative <;> simp [toRat]

/-- The values of finite numbers need no rounding. -/
theorem represents_toRat (x : Binary f) : f.Represents x.toRat := by
  cases x with
  | nan | infinite => exact ⟨f.rounded_zero, abs_toRat_le _⟩
  | finite negative significand exponent fits =>
    obtain ⟨z, e, hz, hlow, hhigh, hvalue⟩ :=
      exists_toRat_eq (x := finite negative significand exponent fits) rfl
    rw [hvalue]
    exact Format.represents_mul_zpow hz hlow hhigh

theorem represents_zero (f : Format) : f.Represents 0 := by
  simpa using (zero false : Binary f).represents_toRat

theorem hasValue_nearest (hf : f.Valid) (h : f.Represents q) (zeroSign : Bool) :
    (nearest zeroSign q : Binary f).HasValue q := by
  have hfinite := isFinite_nearest hf zeroSign h.2
  constructor
  · exact hfinite
  · rw [toRat_nearest_eq_rounded hf hfinite, h.1]

theorem HasValue.mul (hf : f.Valid) (hx : x.HasValue q) (hy : y.HasValue r)
    (h : f.Represents (q * r)) : (x * y).HasValue (q * r) := by
  obtain ⟨hx, rfl⟩ := hx
  obtain ⟨hy, rfl⟩ := hy
  obtain ⟨zeroSign, hmul⟩ := mul_eq_nearest hx hy
  rw [hmul]
  exact hasValue_nearest hf h zeroSign

theorem HasValue.add (hf : f.Valid) (hx : x.HasValue q) (hy : y.HasValue r)
    (h : f.Represents (q + r)) : (x + y).HasValue (q + r) := by
  obtain ⟨hx, rfl⟩ := hx
  obtain ⟨hy, rfl⟩ := hy
  cases x with
  | nan | infinite => cases hx
  | finite =>
    cases y with
    | nan | infinite => cases hy
    | finite => exact hasValue_nearest hf h _

/-- What equals a finite number has its value, though it may be the other zero. -/
theorem HasValue.of_beq (h : (x == y) = true) (hy : y.HasValue q) : x.HasValue q := by
  obtain ⟨hy, rfl⟩ := hy
  cases y with
  | nan | infinite => cases hy
  | finite =>
    cases x with
    | nan | infinite => cases h
    | finite => exact ⟨rfl, beq_iff_eq.mp h⟩

/-- A number is exact in a format that is at least as wide. -/
theorem hasValue_convert {g : Format} (hg : g.Valid) (hprecision : f.precision ≤ g.precision)
    (hlow : g.minExponent ≤ f.minExponent) (hhigh : f.maxExponent ≤ g.maxExponent)
    (hx : x.isFinite = true) : (x.convert : Binary g).HasValue x.toRat := by
  have hrepresents : g.Represents x.toRat := by
    obtain ⟨z, e, hz, hlow', hhigh', hvalue⟩ := exists_toRat_eq hx
    rw [hvalue]
    exact Format.represents_mul_zpow (hz.trans_le (Nat.pow_le_pow_right two_pos hprecision))
      (hlow.trans hlow') (hhigh'.trans hhigh)
  cases x with
  | nan | infinite => cases hx
  | finite => exact hasValue_nearest hg hrepresents _

theorem hasValue_ofInt (hf : f.Valid) {n : Int} (h : n.natAbs < 2 ^ f.precision) :
    (ofInt n : Binary f).HasValue n := by
  have hrepresents : f.Represents n := by
    simpa using Format.represents_mul_zpow h hf.minExponent_nonpos hf.maxExponent_nonneg
  exact hasValue_nearest hf hrepresents false

end Binary

theorem hasValue_zero : (0.0 : Double).HasValue 0 :=
  ⟨rfl, by decide +kernel⟩

theorem hasValue_one : (1.0 : Double).HasValue 1 :=
  ⟨by decide +kernel, by decide +kernel⟩

section Text

variable {x y : Double} {q : Rat}

/-- Two numbers of one value are rounded alike, unless they are zeros. -/
theorem roundTo_eq_of_hasValue (places : Nat) (hx : x.HasValue q) (hy : y.HasValue q)
    (hq : q ≠ 0) : Scalar.roundTo places x = Scalar.roundTo places y := by
  obtain ⟨hx, rfl⟩ := hx
  obtain ⟨hy, hvalue⟩ := hy
  obtain ⟨hfactor, hone⟩ := decimalFactor_spec places
  obtain ⟨zeroSign, hmulx⟩ := Binary.mul_eq_nearest hx hfactor
  obtain ⟨zeroSign', hmuly⟩ := Binary.mul_eq_nearest hy hfactor
  have hproduct : x.toRat * (decimalFactor places).toRat ≠ 0 :=
    mul_ne_zero hq (by linarith)
  have hmul : x * decimalFactor places = y * decimalFactor places := by
    rw [hmulx, hmuly, hvalue]
    exact Binary.nearest_eq_nearest _ _ hproduct
  change Binary.roundAway (x * decimalFactor places) / decimalFactor places =
    Binary.roundAway (y * decimalFactor places) / decimalFactor places
  rw [hmul]

/-- The text of a coordinate shows its value and nothing else. -/
theorem text_eq_of_hasValue (places : Nat) (hx : x.HasValue q) (hy : y.HasValue q) :
    Scalar.text places x = Scalar.text places y := by
  by_cases hq : q = 0
  · subst hq
    rw [text_of_toRat_eq_zero hx.1 hx.2, text_of_toRat_eq_zero hy.1 hy.2]
  · unfold Scalar.text
    rw [roundTo_eq_of_hasValue places hx hy hq]

end Text

end Ideograph.Number
