import Mathlib.Tactic.FieldSimp
import Mathlib.Tactic.Ring
import Ideograph.Proofs.Number.Nearest

/-! # The precision of rounding

A number is rounded to a multiple of a power of two, and is off by half of it at most. Away from
zero this is a fixed fraction of the number itself. An integer with no more digits than the format
is rounded to itself. The numbers of the format are no nearer to each other than such a fraction.
-/

namespace Ideograph.Number

theorem abs_nearestEven_sub_le (q : Rat) : |nearestEven q - q| ≤ 1 / 2 := by
  have hlow := Rat.floor_le q
  have hhigh := Rat.lt_floor_add_one q
  push_cast at hhigh
  rw [nearestEven, abs_le]
  split_ifs with hbelow habove
  · constructor <;> linarith
  · push_cast
    constructor <;> linarith
  · -- Halfway, either neighbour is as near.
    have hhalf : q - q.floor = 1 / 2 := le_antisymm (not_lt.mp habove) (not_lt.mp hbelow)
    rcases Int.emod_two_eq_zero_or_one q.floor with heven | hodd
    · rw [heven]
      push_cast
      constructor <;> linarith
    · rw [hodd]
      push_cast
      constructor <;> linarith

/-- Only one integer is that near to a number. -/
theorem int_eq_of_near {n m : Int} {q : Rat} (hn : |n - q| ≤ 1 / 2) (hm : |q - m| < 1 / 2) :
    n = m := by
  have hlt : |((n - m : Int) : Rat)| < 1 := by
    push_cast
    calc |(n : Rat) - m| = |(n - q) + (q - m)| := by ring_nf
      _ ≤ |n - q| + |q - m| := abs_add_le _ _
      _ < 1 := by linarith
  have hint : |n - m| < 1 := by exact_mod_cast hlt
  exact sub_eq_zero.mp (Int.abs_lt_one_iff.mp hint)

theorem abs_mul_sub_eq {c : Rat} (hc : 0 < c) (x y : Rat) : |x * c - y| = |x - y / c| * c := by
  have hdiff : x * c - y = (x - y / c) * c := by
    rw [sub_mul, div_mul_cancel₀ _ hc.ne']
  rw [hdiff, abs_mul, abs_of_pos hc]

namespace Format

/-- The magnitude to which a positive number is rounded. -/
def roundedMagnitude (f : Format) (a : Rat) : Rat :=
  f.roundedSignificand a * (2 : Rat) ^ f.roundingExponent a

variable {f : Format} {a : Rat}

theorem natCast_roundedSignificand (ha : 0 < a) :
    (f.roundedSignificand a : Rat) = nearestEven (a / (2 : Rat) ^ f.roundingExponent a) := by
  have hnonneg : 0 ≤ nearestEven (a / (2 : Rat) ^ f.roundingExponent a) :=
    le_nearestEven (by push_cast; positivity)
  exact_mod_cast congrArg (Int.cast : Int → Rat) (Int.toNat_of_nonneg hnonneg)

theorem abs_roundedMagnitude_sub_le (ha : 0 < a) :
    |f.roundedMagnitude a - a| ≤ 1 / 2 * (2 : Rat) ^ f.roundingExponent a := by
  rw [roundedMagnitude, natCast_roundedSignificand ha, abs_mul_sub_eq (by positivity)]
  gcongr
  exact abs_nearestEven_sub_le _

/-- From the least number with all its digits on, the error is a fraction of the number. -/
theorem abs_roundedMagnitude_sub_le_div (ha : 0 < a)
    (hnormal : (2 : Rat) ^ (f.minExponent + f.precision - 1) ≤ a) :
    |f.roundedMagnitude a - a| ≤ a / 2 ^ f.precision := by
  have hlog : f.minExponent + f.precision - 1 < floorLog2 a + 1 :=
    (zpow_lt_zpow_iff_right₀ one_lt_two).mp (hnormal.trans_lt (floorLog2_spec ha).2)
  have hexponent : f.roundingExponent a = floorLog2 a + 1 - f.precision :=
    max_eq_right (by omega)
  calc |f.roundedMagnitude a - a| ≤ 1 / 2 * (2 : Rat) ^ f.roundingExponent a :=
        abs_roundedMagnitude_sub_le ha
    _ = (2 : Rat) ^ floorLog2 a / 2 ^ f.precision := by
        rw [hexponent, zpow_sub₀ two_ne_zero, zpow_add_one₀ two_ne_zero, zpow_natCast]
        ring
    _ ≤ a / 2 ^ f.precision := by
        gcongr
        exact (floorLog2_spec ha).1

/-- A multiple of a place that the format has, with no more digits than it has, is exact. -/
theorem roundedMagnitude_natCast_mul {n : Nat} {e : Int} (hpos : 0 < n) (hn : n < 2 ^ f.precision)
    (he : f.minExponent ≤ e) : f.roundedMagnitude (n * (2 : Rat) ^ e) = n * (2 : Rat) ^ e := by
  have hpos' : (0 : Rat) < n * (2 : Rat) ^ e := by positivity
  have hlog : floorLog2 (n * (2 : Rat) ^ e) < f.precision + e := by
    have hlt : (2 : Rat) ^ floorLog2 (n * (2 : Rat) ^ e) < (2 : Rat) ^ (f.precision + e) := by
      refine (floorLog2_spec hpos').1.trans_lt ?_
      rw [zpow_add₀ two_ne_zero, zpow_natCast]
      gcongr
      exact_mod_cast hn
    exact (zpow_lt_zpow_iff_right₀ one_lt_two).mp hlt
  have hexponent : f.roundingExponent (n * (2 : Rat) ^ e) ≤ e := max_le he (by omega)
  obtain ⟨k, hk⟩ := Int.le.dest hexponent
  have hscaled : n * (2 : Rat) ^ e / (2 : Rat) ^ f.roundingExponent (n * (2 : Rat) ^ e) =
      ((n * 2 ^ k : Int) : Rat) := by
    rw [mul_div_assoc, ← zpow_sub₀ two_ne_zero, show e - f.roundingExponent _ = k by omega,
      zpow_natCast]
    push_cast
    rfl
  have hround : nearestEven ((n * 2 ^ k : Int) : Rat) = n * 2 ^ k :=
    le_antisymm (nearestEven_le le_rfl) (le_nearestEven le_rfl)
  rw [roundedMagnitude, natCast_roundedSignificand hpos', hscaled, hround, ← hscaled]
  field_simp

theorem roundedMagnitude_natCast (hf : f.Valid) {n : Nat} (hpos : 0 < n)
    (hn : n < 2 ^ f.precision) : f.roundedMagnitude n = n := by
  simpa using roundedMagnitude_natCast_mul hpos hn hf.minExponent_nonpos

section Spacing

variable {f : Format} {m n : Nat} {e k : Int}

theorem Fits.lt (h : f.Fits m e) : m < 2 ^ f.precision :=
  Nat.lt_log2_self.trans_le (Nat.pow_le_pow_right two_pos h.1)

theorem Fits.le_two_mul (h : f.Fits m e) (he : f.minExponent < e) (hm : m ≠ 0) :
    2 ^ f.precision ≤ 2 * m := by
  have hlog : f.precision ≤ m.log2 + 1 := not_lt.mp fun hlt => he.ne' (h.2.2.2 hlt)
  calc 2 ^ f.precision ≤ 2 ^ (m.log2 + 1) := Nat.pow_le_pow_right two_pos hlog
    _ = 2 * 2 ^ m.log2 := by rw [pow_succ, mul_comm]
    _ ≤ 2 * m := Nat.mul_le_mul_left 2 (Nat.log2_self_le hm)

/-- Magnitudes that differ do so by a fixed fraction of themselves at least. -/
theorem Fits.le_mul_abs_sub (hm : f.Fits m e) (hn : f.Fits n k)
    (hne : (m : Rat) * 2 ^ e ≠ n * 2 ^ k) :
    (m : Rat) * 2 ^ e ≤ 2 ^ f.precision * |(m : Rat) * 2 ^ e - n * 2 ^ k| := by
  have hm' : (m : Rat) ≤ 2 ^ f.precision := by exact_mod_cast hm.lt.le
  rcases le_or_gt e k with hle | hlt
  · -- The other one is a multiple of the last place too.
    obtain ⟨j, rfl⟩ : ∃ j : Nat, k = e + j := ⟨(k - e).toNat, by omega⟩
    have hfactor : (m : Rat) * 2 ^ e - n * 2 ^ (e + j : Int) =
        ((m - n * 2 ^ j : Int) : Rat) * 2 ^ e := by
      rw [zpow_add₀ two_ne_zero, zpow_natCast]
      push_cast
      ring
    have hint : (m - n * 2 ^ j : Int) ≠ 0 := by
      intro hzero
      rw [hzero, Int.cast_zero, zero_mul] at hfactor
      exact hne (sub_eq_zero.mp hfactor)
    have hone : (1 : Rat) ≤ |((m - n * 2 ^ j : Int) : Rat)| := by
      exact_mod_cast Int.one_le_abs hint
    rw [hfactor, abs_mul, abs_of_pos (by positivity : (0 : Rat) < 2 ^ e)]
    calc (m : Rat) * 2 ^ e ≤ 2 ^ f.precision * (1 * 2 ^ e) := by rw [one_mul]; gcongr
      _ ≤ 2 ^ f.precision * (|((m - n * 2 ^ j : Int) : Rat)| * 2 ^ e) := by gcongr
  · -- The other one lies below the power of two that the first one reaches.
    rcases eq_or_ne m 0 with rfl | hpos
    · rw [Nat.cast_zero, zero_mul]
      positivity
    have hhigh : (n : Rat) + 1 ≤ 2 ^ f.precision := by exact_mod_cast hn.lt
    have hlow : (2 : Rat) ^ f.precision ≤ 2 * m := by
      exact_mod_cast hm.le_two_mul (hn.2.1.trans_lt hlt) hpos
    have hplace : 2 * (2 : Rat) ^ k ≤ 2 ^ e := by
      rw [← zpow_one_add₀ two_ne_zero]
      exact zpow_le_zpow_right₀ one_le_two (by omega)
    have hreach : 2 ^ f.precision * (2 : Rat) ^ k ≤ m * 2 ^ e := by
      calc 2 ^ f.precision * (2 : Rat) ^ k ≤ 2 * m * 2 ^ k := by gcongr
        _ = m * (2 * 2 ^ k) := by ring
        _ ≤ m * 2 ^ e := by gcongr
    have hother : 2 ^ f.precision * ((n : Rat) * 2 ^ k) ≤ (2 ^ f.precision - 1) * (m * 2 ^ e) := by
      calc 2 ^ f.precision * ((n : Rat) * 2 ^ k) = n * (2 ^ f.precision * 2 ^ k) := by ring
        _ ≤ n * (m * 2 ^ e) := by gcongr
        _ ≤ (2 ^ f.precision - 1) * (m * 2 ^ e) := by gcongr; linarith
    calc (m : Rat) * 2 ^ e ≤ 2 ^ f.precision * (m * 2 ^ e - n * 2 ^ k) := by linarith
      _ ≤ 2 ^ f.precision * |(m : Rat) * 2 ^ e - n * 2 ^ k| := by
        gcongr
        exact le_abs_self _

end Spacing

end Format

namespace Binary

variable {f : Format} {q : Rat}

theorem isNegative_ofParts (negative : Bool) (significand : Nat) (exponent : Int) :
    (ofParts negative significand exponent : Binary f).isNegative = negative := by
  rw [ofParts]
  split <;> rfl

theorem neg_ofParts (negative : Bool) (significand : Nat) (exponent : Int) :
    (ofParts negative significand exponent : Binary f).neg =
      ofParts (!negative) significand exponent := by
  rw [ofParts, ofParts]
  split <;> rfl

theorem toRat_ofParts {negative : Bool} {significand : Nat} {exponent : Int}
    (h : (ofParts negative significand exponent : Binary f).isFinite = true) :
    (ofParts negative significand exponent : Binary f).toRat =
      if negative then -(significand * (2 : Rat) ^ exponent)
      else significand * (2 : Rat) ^ exponent := by
  rw [ofParts] at h ⊢
  split at h
  · next hfits =>
    rw [dif_pos hfits]
    rfl
  · cases h

@[simp] theorem toRat_zero (negative : Bool) : (zero negative : Binary f).toRat = 0 := by
  rw [zero, ofParts]
  split
  · cases negative <;> simp [toRat]
  · rfl

theorem isNegative_nearest (zeroSign : Bool) (hq : q ≠ 0) :
    (nearest zeroSign q : Binary f).isNegative = decide (q < 0) := by
  rw [nearest_of_ne_zero zeroSign hq]
  split <;> exact isNegative_ofParts _ _ _

/-- Only a zero takes the sign that it is given. -/
theorem nearest_eq_nearest (zeroSign zeroSign' : Bool) (hq : q ≠ 0) :
    (nearest zeroSign q : Binary f) = nearest zeroSign' q := by
  rw [nearest_of_ne_zero zeroSign hq, nearest_of_ne_zero zeroSign' hq]

theorem neg_nearest (zeroSign : Bool) (hq : q ≠ 0) :
    (nearest zeroSign q : Binary f).neg = nearest zeroSign (-q) := by
  have hsign : decide (-q < 0) = !decide (q < 0) := by
    rcases lt_or_gt_of_ne hq with hneg | hpos
    · simp [hneg, hneg.le]
    · simp [hpos, hpos.le]
  rw [nearest_of_ne_zero zeroSign hq, nearest_of_ne_zero zeroSign (neg_ne_zero.mpr hq), abs_neg,
    hsign]
  split <;> exact neg_ofParts _ _ _

/-- A number that is rounded to a finite one has its magnitude rounded, even if digits carry over
to the next exponent. -/
theorem toRat_nearest (hf : f.Valid) {zeroSign : Bool} (hq : q ≠ 0)
    (h : (nearest zeroSign q : Binary f).isFinite = true) :
    (nearest zeroSign q : Binary f).toRat =
      if q < 0 then -f.roundedMagnitude |q| else f.roundedMagnitude |q| := by
  have ha : 0 < |q| := abs_pos.mpr hq
  rw [nearest_of_ne_zero zeroSign hq] at h ⊢
  split at h
  · next hlog =>
    rw [if_pos hlog, toRat_ofParts h]
    simp [Format.roundedMagnitude]
  · next hlog =>
    have hprecision := hf.precision_pos
    have hpos : f.roundedSignificand |q| ≠ 0 := by
      intro hzero
      rw [hzero] at hlog
      exact hlog (by simpa using hprecision)
    have hcarry : f.roundedSignificand |q| = 2 ^ f.precision :=
      (Format.roundedSignificand_le ha).antisymm ((Nat.le_log2 hpos).mp (not_lt.mp hlog))
    have hhalf : f.roundedSignificand |q| / 2 * 2 = f.roundedSignificand |q| := by
      rw [hcarry, ← pow_sub_one_mul hprecision.ne', Nat.mul_div_cancel _ two_pos]
    have hmagnitude : ((f.roundedSignificand |q| / 2 : Nat) : Rat) *
        (2 : Rat) ^ (f.roundingExponent |q| + 1) = f.roundedMagnitude |q| := by
      rw [Format.roundedMagnitude, zpow_add_one₀ two_ne_zero]
      nth_rewrite 2 [← hhalf]
      push_cast
      ring
    rw [if_neg hlog, toRat_ofParts h, hmagnitude]
    simp

/-- Away from zero a number is rounded by a fixed fraction of itself at most. -/
theorem abs_toRat_nearest_sub_le (hf : f.Valid) {zeroSign : Bool}
    (hnormal : (2 : Rat) ^ (f.minExponent + f.precision - 1) ≤ |q|)
    (h : (nearest zeroSign q : Binary f).isFinite = true) :
    |(nearest zeroSign q : Binary f).toRat - q| ≤ |q| / 2 ^ f.precision := by
  have ha : 0 < |q| := lt_of_lt_of_le (by positivity) hnormal
  have hround := Format.abs_roundedMagnitude_sub_le_div ha hnormal
  rw [toRat_nearest hf (abs_pos.mp ha) h]
  split
  · next hneg =>
    rw [← abs_neg, neg_sub, sub_neg_eq_add, add_comm, ← sub_neg_eq_add, ← abs_of_neg hneg]
    exact hround
  · next hpos =>
    nth_rewrite 2 [← abs_of_nonneg (not_lt.mp hpos)]
    exact hround

theorem toRat_nearest_intCast (hf : f.Valid) (zeroSign : Bool) {n : Int}
    (hn : n.natAbs < 2 ^ f.precision)
    (h : (nearest zeroSign (n : Rat) : Binary f).isFinite = true) :
    (nearest zeroSign (n : Rat) : Binary f).toRat = n := by
  by_cases hzero : n = 0
  · rw [hzero, Int.cast_zero, nearest, if_pos rfl, toRat_zero]
  have habs : |(n : Rat)| = (n.natAbs : Rat) := by
    rw [Nat.cast_natAbs, Int.cast_abs]
  have hmagnitude : f.roundedMagnitude |(n : Rat)| = |(n : Rat)| := by
    rw [habs]
    exact Format.roundedMagnitude_natCast hf (Int.natAbs_pos.mpr hzero) hn
  rw [toRat_nearest hf (Int.cast_ne_zero.mpr hzero) h, hmagnitude]
  split
  · next hneg => rw [abs_of_neg hneg, neg_neg]
  · next hpos => exact abs_of_nonneg (not_lt.mp hpos)

section Spacing

variable {x y : Binary f}

/-- Two numbers of a format are a fixed fraction of themselves apart at least. -/
theorem abs_toRat_le_mul_abs_sub (h : x.toRat ≠ y.toRat) :
    |x.toRat| ≤ 2 ^ f.precision * |x.toRat - y.toRat| := by
  have hone := f.one_le_two_pow_precision
  by_cases habs : |x.toRat| = |y.toRat|
  · have hopposite := (abs_eq_abs.mp habs).resolve_left h
    calc |x.toRat| ≤ |x.toRat| + |x.toRat| := le_add_of_nonneg_left (abs_nonneg _)
      _ = |x.toRat - y.toRat| := by
        rw [← neg_eq_iff_eq_neg.mpr hopposite, sub_neg_eq_add, ← two_mul, ← two_mul, abs_mul, abs_two]
      _ ≤ 2 ^ f.precision * |x.toRat - y.toRat| := le_mul_of_one_le_left (abs_nonneg _) hone
  · cases x with
    | nan | infinite =>
      simp only [toRat, abs_zero]
      positivity
    | finite s m e hm =>
      cases y with
      | nan | infinite =>
        simp only [toRat, sub_zero]
        exact le_mul_of_one_le_left (abs_nonneg _) hone
      | finite t n k hn =>
        have hdistance := abs_abs_sub_abs_le_abs_sub (finite s m e hm).toRat (finite t n k hn).toRat
        rw [abs_toRat_finite, abs_toRat_finite] at habs hdistance
        rw [abs_toRat_finite]
        refine (hm.le_mul_abs_sub hn habs).trans ?_
        gcongr

end Spacing

end Binary

end Ideograph.Number
