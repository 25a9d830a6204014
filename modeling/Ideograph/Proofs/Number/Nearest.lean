import Mathlib.Algebra.Order.Field.Basic
import Mathlib.Algebra.Order.Field.Power
import Mathlib.Algebra.Order.Ring.Unbundled.Rat
import Mathlib.Data.Rat.Cast.Order
import Mathlib.Tactic.Linarith
import Mathlib.Tactic.Positivity
import Ideograph.Number.Scalar

/-! # Rounding within the range

A number between the least and the greatest finite number of a format is rounded to a finite one.
Hence a coordinate stays finite when it is rounded if the product with the power of ten does.
-/

namespace Ideograph.Number

section Integers

variable {n : Int} {q : Rat}

theorem le_nearestEven (h : (n : Rat) ≤ q) : n ≤ nearestEven q := by
  have hfloor : n ≤ q.floor := Rat.le_floor_iff.mpr h
  rw [nearestEven]
  split_ifs <;> omega

theorem nearestEven_le (h : q ≤ (n : Rat)) : nearestEven q ≤ n := by
  have hfloor : q.floor ≤ n := by
    exact_mod_cast (Rat.floor_le q).trans h
  rw [nearestEven]
  split_ifs with hbelow habove
  · exact hfloor
  all_goals
    have hlt : q.floor < n := by
      have : (q.floor : Rat) < q := by linarith
      exact_mod_cast this.trans_le h
    omega

theorem nearestAway_mem (h : -(n : Rat) ≤ q ∧ q ≤ n) :
    -n ≤ nearestAway q ∧ nearestAway q ≤ n := by
  obtain ⟨hlow, hhigh⟩ := h
  rw [nearestAway]
  split
  · next hneg =>
    have hlt : (1 / 2 - q).floor < n + 1 := by
      rw [Rat.floor_lt_iff]
      push_cast
      linarith
    have hnonneg : 0 ≤ (1 / 2 - q).floor := by
      rw [Rat.le_floor_iff]
      push_cast
      linarith
    omega
  · next hpos =>
    have hlt : (q + 1 / 2).floor < n + 1 := by
      rw [Rat.floor_lt_iff]
      push_cast
      linarith
    have hnonneg : 0 ≤ (q + 1 / 2).floor := by
      rw [Rat.le_floor_iff]
      push_cast
      linarith
    omega

/-- A positive number lies between the powers of two of the lengths of its parts. -/
theorem two_zpow_lt_of_log2 (hq : 0 < q) :
    (2 : Rat) ^ ((q.num.natAbs.log2 : Int) - q.den.log2 - 1) < q ∧
      q < (2 : Rat) ^ ((q.num.natAbs.log2 : Int) - q.den.log2 + 1) := by
  have hnum : q.num.natAbs ≠ 0 := by
    have := Rat.num_pos.mpr hq
    omega
  have hq' : (q.num.natAbs : Rat) / q.den = q := by
    have hcast : (q.num.natAbs : Rat) = q.num := by
      rw [Nat.cast_natAbs, abs_of_pos (Rat.num_pos.mpr hq)]
    rw [hcast, Rat.num_div_den]
  have hnumLow : (2 : Rat) ^ q.num.natAbs.log2 ≤ q.num.natAbs := by
    exact_mod_cast Nat.log2_self_le hnum
  have hnumHigh : (q.num.natAbs : Rat) < 2 ^ (q.num.natAbs.log2 + 1) := by
    exact_mod_cast Nat.lt_log2_self
  have hdenLow : (2 : Rat) ^ q.den.log2 ≤ q.den := by
    exact_mod_cast Nat.log2_self_le q.den_ne_zero
  have hdenHigh : (q.den : Rat) < 2 ^ (q.den.log2 + 1) := by
    exact_mod_cast Nat.lt_log2_self
  have hden : (0 : Rat) < q.den := by exact_mod_cast q.den_pos
  constructor
  · have hpow : (2 : Rat) ^ ((q.num.natAbs.log2 : Int) - q.den.log2 - 1) *
        2 ^ (q.den.log2 + 1) = 2 ^ q.num.natAbs.log2 := by
      rw [← zpow_natCast, ← zpow_natCast, ← zpow_add₀ two_ne_zero]
      congr 1
      push_cast
      omega
    calc (2 : Rat) ^ ((q.num.natAbs.log2 : Int) - q.den.log2 - 1)
        < q.num.natAbs / q.den := by
          rw [lt_div_iff₀ hden]
          refine lt_of_lt_of_le ?_ hnumLow
          rw [← hpow]
          gcongr
      _ = q := hq'
  · have hpow : (2 : Rat) ^ ((q.num.natAbs.log2 : Int) - q.den.log2 + 1) *
        2 ^ q.den.log2 = 2 ^ (q.num.natAbs.log2 + 1) := by
      rw [← zpow_natCast, ← zpow_natCast, ← zpow_add₀ two_ne_zero]
      congr 1
      push_cast
      omega
    calc q = q.num.natAbs / q.den := hq'.symm
      _ < (2 : Rat) ^ ((q.num.natAbs.log2 : Int) - q.den.log2 + 1) := by
          rw [div_lt_iff₀ hden]
          refine hnumHigh.trans_le ?_
          rw [← hpow]
          gcongr

/-- The binary order of magnitude. -/
theorem floorLog2_spec (hq : 0 < q) :
    (2 : Rat) ^ floorLog2 q ≤ q ∧ q < (2 : Rat) ^ (floorLog2 q + 1) := by
  obtain ⟨hlow, hhigh⟩ := two_zpow_lt_of_log2 hq
  rw [floorLog2]
  split
  · next hlt => exact ⟨hlow.le, by rwa [sub_add_cancel]⟩
  · next hge => exact ⟨not_lt.mp hge, hhigh⟩

end Integers

namespace Format

/-- A format with numbers that are integers and numbers that are fractions. -/
structure Valid (f : Format) : Prop where
  precision_pos : 0 < f.precision
  minExponent_nonpos : f.minExponent ≤ 0
  maxExponent_nonneg : 0 ≤ f.maxExponent

theorem valid_double : double.Valid :=
  ⟨by decide, by decide, by decide⟩

/-- The greatest finite number. -/
def greatest (f : Format) : Rat :=
  (2 ^ f.precision - 1) * (2 : Rat) ^ f.maxExponent

theorem one_le_two_pow_precision (f : Format) : (1 : Rat) ≤ 2 ^ f.precision :=
  one_le_pow₀ one_le_two

theorem greatest_lt (f : Format) : f.greatest < (2 : Rat) ^ (f.precision + f.maxExponent) := by
  rw [greatest, zpow_add₀ two_ne_zero, zpow_natCast]
  gcongr
  linarith

theorem exists_int_eq_greatest {f : Format} (hf : f.Valid) : ∃ n : Int, f.greatest = n := by
  refine ⟨(2 ^ f.precision - 1) * 2 ^ f.maxExponent.toNat, ?_⟩
  have hexponent : (f.maxExponent.toNat : Int) = f.maxExponent :=
    Int.toNat_of_nonneg hf.maxExponent_nonneg
  rw [greatest, ← hexponent, zpow_natCast]
  push_cast
  rfl

/-- The exponent at which a positive number is rounded. -/
def roundingExponent (f : Format) (a : Rat) : Int :=
  max f.minExponent (floorLog2 a + 1 - f.precision)

theorem roundingExponent_of_ne {f : Format} {a : Rat} (h : f.roundingExponent a ≠ f.minExponent) :
    f.roundingExponent a = floorLog2 a + 1 - f.precision := by
  rw [roundingExponent] at h ⊢
  omega

/-- The significand of a positive number, before it is carried over. -/
def roundedSignificand (f : Format) (a : Rat) : Nat :=
  (nearestEven (a / (2 : Rat) ^ f.roundingExponent a)).toNat

section Significand

variable {f : Format} {a : Rat}

theorem roundedSignificand_le (ha : 0 < a) : f.roundedSignificand a ≤ 2 ^ f.precision := by
  have hscaled : a / (2 : Rat) ^ f.roundingExponent a ≤ ((2 ^ f.precision : Int) : Rat) := by
    have hexponent : floorLog2 a + 1 ≤ f.precision + f.roundingExponent a := by
      have := le_max_right f.minExponent (floorLog2 a + 1 - f.precision)
      rw [roundingExponent]
      omega
    rw [div_le_iff₀ (by positivity)]
    calc a ≤ (2 : Rat) ^ (floorLog2 a + 1) := (floorLog2_spec ha).2.le
      _ ≤ (2 : Rat) ^ (f.precision + f.roundingExponent a) := by
          gcongr
          exact one_le_two
      _ = ((2 ^ f.precision : Int) : Rat) * (2 : Rat) ^ f.roundingExponent a := by
          rw [zpow_add₀ two_ne_zero, zpow_natCast]
          push_cast
          rfl
  have hle := nearestEven_le hscaled
  rw [roundedSignificand, Int.toNat_le]
  exact_mod_cast hle

/-- Above the least exponent the significand has all its digits. -/
theorem le_roundedSignificand (hf : f.Valid) (ha : 0 < a)
    (hexponent : f.roundingExponent a ≠ f.minExponent) :
    2 ^ (f.precision - 1) ≤ f.roundedSignificand a := by
  have hprecision : ((f.precision - 1 : Nat) : Int) = f.precision - 1 := by
    have := hf.precision_pos
    omega
  have hexponent' := roundingExponent_of_ne hexponent
  have hscaled : ((2 ^ (f.precision - 1) : Int) : Rat) ≤
      a / (2 : Rat) ^ f.roundingExponent a := by
    rw [le_div_iff₀ (by positivity)]
    calc ((2 ^ (f.precision - 1) : Int) : Rat) * (2 : Rat) ^ f.roundingExponent a
        = (2 : Rat) ^ floorLog2 a := by
          push_cast
          rw [← zpow_natCast, ← zpow_add₀ two_ne_zero, hexponent', hprecision]
          congr 1
          omega
      _ ≤ a := (floorLog2_spec ha).1
  have hle := le_nearestEven hscaled
  have hcast : ((2 ^ (f.precision - 1) : Nat) : Int) = 2 ^ (f.precision - 1) := by push_cast; rfl
  rw [roundedSignificand]
  omega

theorem roundingExponent_le (hf : f.Valid) (ha : 0 < a) (h : a ≤ f.greatest) :
    f.roundingExponent a ≤ f.maxExponent := by
  have hlog : floorLog2 a < f.precision + f.maxExponent := by
    have hlt : (2 : Rat) ^ floorLog2 a < (2 : Rat) ^ (f.precision + f.maxExponent) :=
      ((floorLog2_spec ha).1.trans h).trans_lt f.greatest_lt
    exact (zpow_lt_zpow_iff_right₀ one_lt_two).mp hlt
  have := hf.minExponent_nonpos
  have := hf.maxExponent_nonneg
  rw [roundingExponent]
  omega

/-- At the greatest exponent nothing within the range is carried over. -/
theorem roundedSignificand_lt (h : a ≤ f.greatest)
    (hexponent : f.roundingExponent a = f.maxExponent) :
    f.roundedSignificand a < 2 ^ f.precision := by
  have hscaled : a / (2 : Rat) ^ f.roundingExponent a ≤ ((2 ^ f.precision - 1 : Int) : Rat) := by
    rw [div_le_iff₀ (by positivity), hexponent]
    push_cast
    exact h
  have hle := nearestEven_le hscaled
  rw [roundedSignificand]
  have hpos : (0 : Int) < 2 ^ f.precision := by positivity
  zify
  omega

end Significand

end Format

namespace Binary

variable {f : Format}

theorem isFinite_ofParts {negative : Bool} {significand : Nat} {exponent : Int}
    (h : f.Fits significand exponent) :
    (ofParts negative significand exponent : Binary f).isFinite = true := by
  rw [ofParts, dif_pos h]
  rfl

theorem abs_toRat_finite (negative : Bool) (significand : Nat) (exponent : Int)
    (fits : f.Fits significand exponent) :
    |toRat (finite (f := f) negative significand exponent fits)| =
      (significand : Rat) * (2 : Rat) ^ exponent := by
  cases negative <;> simp [toRat, abs_mul]

/-- Finite numbers are not beyond the greatest one. -/
theorem abs_toRat_le (x : Binary f) : |x.toRat| ≤ f.greatest := by
  have hgreatest : 0 ≤ f.greatest :=
    mul_nonneg (sub_nonneg.mpr f.one_le_two_pow_precision) (by positivity)
  cases x with
  | nan => simpa [toRat] using hgreatest
  | infinite negative => simpa [toRat] using hgreatest
  | finite negative significand exponent fits =>
    have hexponent : exponent ≤ f.maxExponent := fits.2.2.1
    have hsignificand : (significand : Rat) ≤ 2 ^ f.precision - 1 := by
      have hlt : significand < 2 ^ f.precision :=
        Nat.lt_log2_self.trans_le (Nat.pow_le_pow_right two_pos fits.1)
      have hle : (significand : Rat) + 1 ≤ 2 ^ f.precision := by exact_mod_cast hlt
      linarith
    rw [abs_toRat_finite, Format.greatest]
    gcongr
    · exact sub_nonneg.mpr f.one_le_two_pow_precision
    · exact one_le_two

theorem rat_abs_eq (q : Rat) : q.abs = |q| := by
  rw [Rat.abs]
  split_ifs with h
  · exact (abs_of_nonneg h).symm
  · exact (abs_of_neg (not_le.mp h)).symm

theorem nearest_of_ne_zero (zeroSign : Bool) {q : Rat} (h : q ≠ 0) :
    (nearest zeroSign q : Binary f) =
      if (f.roundedSignificand |q|).log2 < f.precision then
        ofParts (decide (q < 0)) (f.roundedSignificand |q|) (f.roundingExponent |q|)
      else
        ofParts (decide (q < 0)) (f.roundedSignificand |q| / 2) (f.roundingExponent |q| + 1) := by
  rw [nearest, if_neg h]
  simp only [rat_abs_eq]
  rfl

/-- A number within the range is rounded to a finite one. -/
theorem isFinite_nearest (hf : f.Valid) (zeroSign : Bool) {q : Rat} (h : |q| ≤ f.greatest) :
    (nearest zeroSign q : Binary f).isFinite = true := by
  by_cases hq : q = 0
  · rw [nearest, if_pos hq]
    refine isFinite_ofParts ⟨?_, le_rfl, ?_, fun _ => rfl⟩
    · simpa using hf.precision_pos
    · exact hf.minExponent_nonpos.trans hf.maxExponent_nonneg
  have ha : 0 < |q| := abs_pos.mpr hq
  have hle := Format.roundedSignificand_le (f := f) ha
  have hmin : f.minExponent ≤ f.roundingExponent |q| := le_max_left _ _
  have hmax := Format.roundingExponent_le hf ha h
  have hprecision := hf.precision_pos
  rw [nearest_of_ne_zero zeroSign hq]
  split_ifs with hlog
  · -- A significand with fewer digits than fit only occurs at the least exponent.
    refine isFinite_ofParts ⟨hlog, hmin, hmax, fun hshort => ?_⟩
    by_contra hexponent
    have hlarge := Format.le_roundedSignificand hf ha hexponent
    have hpos : f.roundedSignificand |q| ≠ 0 := by
      have := Nat.two_pow_pos (f.precision - 1)
      omega
    have := (Nat.le_log2 hpos).mpr hlarge
    omega
  · -- A carry leaves the least significand with all digits at the next exponent.
    have hpos : f.roundedSignificand |q| ≠ 0 := by
      intro hzero
      rw [hzero] at hlog
      exact hlog (by simpa using hprecision)
    have hcarry : f.roundedSignificand |q| = 2 ^ f.precision :=
      hle.antisymm ((Nat.le_log2 hpos).mp (not_lt.mp hlog))
    have hhalf : f.roundedSignificand |q| / 2 = 2 ^ (f.precision - 1) := by
      rw [hcarry, ← pow_sub_one_mul hprecision.ne', Nat.mul_div_cancel _ two_pos]
    have hlt : f.roundingExponent |q| < f.maxExponent := by
      refine lt_of_le_of_ne hmax fun hexponent => ?_
      exact absurd hcarry (Format.roundedSignificand_lt h hexponent).ne
    have hlog' : (2 ^ (f.precision - 1)).log2 = f.precision - 1 := Nat.log2_two_pow
    rw [hhalf]
    exact isFinite_ofParts ⟨by omega, by omega, by omega, fun hshort => by omega⟩

/-! ## Operations on finite numbers

Each of them rounds the exact result once; only an exact zero takes its sign from the operands.
-/

section Operations

variable {x y : Binary f}

theorem mul_eq_nearest (hx : x.isFinite = true) (hy : y.isFinite = true) :
    ∃ zeroSign, x * y = nearest zeroSign (x.toRat * y.toRat) := by
  cases x with
  | nan => cases hx
  | infinite => cases hx
  | finite =>
    cases y with
    | nan => cases hy
    | infinite => cases hy
    | finite => exact ⟨_, rfl⟩

theorem roundAway_eq_nearest (hx : x.isFinite = true) :
    ∃ zeroSign, x.roundAway = nearest zeroSign (nearestAway x.toRat) := by
  cases x with
  | nan => cases hx
  | infinite => cases hx
  | finite => exact ⟨_, rfl⟩

theorem div_eq_nearest (hx : x.isFinite = true) (hy : y.isFinite = true) (hne : y.toRat ≠ 0) :
    ∃ zeroSign, x / y = nearest zeroSign (x.toRat / y.toRat) := by
  cases x with
  | nan => cases hx
  | infinite => cases hx
  | finite negative' significand' exponent' fits' =>
    cases y with
    | nan => cases hy
    | infinite => cases hy
    | finite negative significand exponent fits =>
      have hsignificand : significand ≠ 0 := by
        rintro rfl
        cases negative <;> simp [toRat] at hne
      exact ⟨negative' ^^ negative, if_neg hsignificand⟩

/-- Division by a number that is not below one stays finite. -/
theorem isFinite_div (hf : f.Valid) (hy : y.isFinite = true) (hone : 1 ≤ y.toRat) :
    (x / y).isFinite = x.isFinite := by
  cases x with
  | nan => cases y <;> rfl
  | infinite negative =>
    cases y with
    | nan => cases hy
    | infinite => cases hy
    | finite => rfl
  | finite negative significand exponent fits =>
    obtain ⟨zeroSign, hdiv⟩ :=
      div_eq_nearest (x := finite negative significand exponent fits) rfl hy (by linarith)
    rw [hdiv]
    refine isFinite_nearest hf zeroSign ?_
    rw [abs_div]
    exact (div_le_self (abs_nonneg _) (hone.trans (le_abs_self _))).trans (abs_toRat_le _)

theorem isFinite_roundAway (hf : f.Valid) (x : Binary f) : x.roundAway.isFinite = x.isFinite := by
  cases x with
  | nan => rfl
  | infinite negative => rfl
  | finite negative significand exponent fits =>
    obtain ⟨n, hn⟩ := Format.exists_int_eq_greatest hf
    have hbound := abs_le.mp (abs_toRat_le (finite (f := f) negative significand exponent fits))
    rw [hn] at hbound
    have hround := nearestAway_mem hbound
    refine isFinite_nearest hf _ ?_
    rw [hn, abs_le]
    exact_mod_cast hround

end Operations

end Binary

/-- The power of ten by which a coordinate is multiplied before it is rounded. -/
def decimalFactor (places : Nat) : Double :=
  OfScientific.ofScientific 1 false (min places Scalar.maxPlaces)

theorem decimalFactor_spec (places : Nat) :
    (decimalFactor places).isFinite = true ∧ 1 ≤ (decimalFactor places).toRat := by
  have hall : ∀ n : Fin 16, (OfScientific.ofScientific 1 false n.val : Double).isFinite = true ∧
      1 ≤ (OfScientific.ofScientific 1 false n.val : Double).toRat := by
    decide +kernel
  exact hall ⟨min places Scalar.maxPlaces, Nat.lt_succ_of_le (Nat.min_le_right _ _)⟩

/-- A coordinate stays finite when it is rounded exactly if it does when it is multiplied. -/
theorem isFinite_roundTo (places : Nat) (x : Double) :
    (Scalar.roundTo places x).isFinite = (x * decimalFactor places).isFinite := by
  obtain ⟨hfinite, hone⟩ := decimalFactor_spec places
  change (Binary.roundAway (x * decimalFactor places) / decimalFactor places).isFinite = _
  rw [Binary.isFinite_div Format.valid_double hfinite hone,
    Binary.isFinite_roundAway Format.valid_double]

end Ideograph.Number
