import Ideograph.Proofs.Number.Order

/-! # The number nearest to another

Rounding takes one of the nearest integers, or one of the nearest numbers of a format, and of two
equally near integers the even one. Where all digits of a significand stand before the point and
the last of them right before it, the numbers of a format are the integers.
-/

namespace Ideograph.Number

section Integers

variable {q : Rat} {n : Int}

theorem abs_nearestEven_sub_le_abs_sub (q : Rat) (n : Int) : |nearestEven q - q| ≤ |n - q| := by
  rcases lt_or_ge |(n : Rat) - q| (1 / 2) with hlt | hge
  · rw [int_eq_of_near (abs_nearestEven_sub_le q) (abs_sub_comm (n : Rat) q ▸ hlt)]
  · exact (abs_nearestEven_sub_le q).trans hge

/-- Of two equally near integers the even one is taken. -/
theorem even_nearestEven (h : |nearestEven q - q| = 1 / 2) : nearestEven q % 2 = 0 := by
  have hlow := Rat.floor_le q
  have hhigh := Rat.lt_floor_add_one q
  push_cast at hhigh
  rw [nearestEven] at h ⊢
  split_ifs at h ⊢ with hbelow habove
  · rw [abs_sub_comm, abs_of_nonneg (by linarith)] at h
    exact absurd h hbelow.ne
  · push_cast at h
    rw [abs_of_pos (by linarith)] at h
    linarith
  · omega

/-- An integer is taken if no other is nearer, and where one is as near if it is even. -/
theorem nearestEven_eq_of_near (h : |q - n| ≤ 1 / 2) (htie : |q - n| = 1 / 2 → n % 2 = 0) :
    nearestEven q = n := by
  rcases h.lt_or_eq with hlt | heq
  · exact int_eq_of_near (abs_nearestEven_sub_le q) hlt
  rcases (abs_nearestEven_sub_le q).lt_or_eq with hlt | heq'
  · exact (int_eq_of_near (abs_sub_comm q n ▸ h) (abs_sub_comm (nearestEven q : Rat) q ▸ hlt)).symm
  · -- Both are even, and at most one apart.
    have heven := even_nearestEven heq'
    have heven' := htie heq
    have hnear : |((nearestEven q - n : Int) : Rat)| ≤ 1 := by
      push_cast
      calc |(nearestEven q : Rat) - n| ≤ |nearestEven q - q| + |q - n| := abs_sub_le _ _ _
        _ ≤ 1 := by linarith
    have hnear' : |nearestEven q - n| ≤ 1 := by exact_mod_cast hnear
    have := abs_le.mp hnear'
    omega

end Integers

namespace Format

variable {f : Format} {a b q r : Rat}

/-- No multiple of the last place is nearer. -/
theorem abs_roundedMagnitude_sub_le_abs_mul_sub (ha : 0 < a) (n : Int) :
    |f.roundedMagnitude a - a| ≤ |n * (2 : Rat) ^ f.roundingExponent a - a| := by
  have hpow : (0 : Rat) < 2 ^ f.roundingExponent a := by positivity
  rw [roundedMagnitude, natCast_roundedSignificand ha, abs_mul_sub_eq hpow, abs_mul_sub_eq hpow]
  exact mul_le_mul_of_nonneg_right (abs_nearestEven_sub_le_abs_sub _ n) hpow.le

/-- No magnitude that is a number of the format is nearer. -/
theorem abs_roundedMagnitude_sub_le_abs_sub (hf : f.Valid) (ha : 0 < a) (hb : 0 < b)
    (hexact : f.roundedMagnitude b = b) : |f.roundedMagnitude a - a| ≤ |b - a| := by
  rcases le_or_gt (f.roundingExponent a) (f.roundingExponent b) with hle | hlt
  · -- It is a multiple of the last place.
    obtain ⟨k, hk⟩ := Int.le.dest hle
    have hmultiple : b = ((f.roundedSignificand b * 2 ^ k : Int) : Rat) *
        (2 : Rat) ^ f.roundingExponent a := by
      rw [roundedMagnitude, ← hk, zpow_add₀ two_ne_zero, zpow_natCast] at hexact
      push_cast
      linarith
    rw [hmultiple]
    exact abs_roundedMagnitude_sub_le_abs_mul_sub ha _
  · -- A power of two lies between them.
    have hmin : f.minExponent ≤ f.roundingExponent b := le_max_left _ _
    have hprecision : ((f.precision - 1 : Nat) : Int) = f.precision - 1 := by
      have := hf.precision_pos
      omega
    have hlog : floorLog2 a = (f.precision - 1 : Nat) + f.roundingExponent a := by
      rw [roundingExponent_of_ne (hmin.trans_lt hlt).ne', hprecision]
      ring
    have hreach : (2 : Rat) ^ floorLog2 a =
        ((2 ^ (f.precision - 1) : Int) : Rat) * 2 ^ f.roundingExponent a := by
      rw [hlog, zpow_add₀ two_ne_zero, zpow_natCast]
      push_cast
      rfl
    have hlow : b ≤ (2 : Rat) ^ floorLog2 a := by
      have hsignificand : (f.roundedSignificand b : Rat) ≤ 2 ^ f.precision := by
        exact_mod_cast roundedSignificand_le hb
      calc b = f.roundedSignificand b * (2 : Rat) ^ f.roundingExponent b := hexact.symm
        _ ≤ 2 ^ f.precision * (2 : Rat) ^ (f.roundingExponent a - 1) := by
          gcongr
          · exact one_le_two
          · omega
        _ = (2 : Rat) ^ floorLog2 a := by
          rw [hlog, ← zpow_natCast, ← zpow_add₀ two_ne_zero]
          congr 1
          omega
    have hhigh := (floorLog2_spec ha).1
    have hbetween := abs_roundedMagnitude_sub_le_abs_mul_sub (f := f) ha (2 ^ (f.precision - 1))
    rw [← hreach, abs_sub_comm (2 ^ floorLog2 a),
      abs_of_nonneg (by linarith : 0 ≤ a - 2 ^ floorLog2 a)] at hbetween
    rw [abs_sub_comm b, abs_of_nonneg (by linarith : 0 ≤ a - b)]
    linarith

theorem abs_rounded (f : Format) (q : Rat) : |f.rounded q| = f.roundedMagnitude |q| := by
  rw [rounded]
  split
  · rw [abs_neg, abs_of_nonneg (f.roundedMagnitude_nonneg _)]
  · rw [abs_of_nonneg (f.roundedMagnitude_nonneg _)]

/-- No number of the format is nearer. -/
theorem abs_rounded_sub_le_abs_sub (hf : f.Valid) (hr : f.rounded r = r) :
    |f.rounded q - q| ≤ |r - q| := by
  have hpos : ∀ {q r : Rat}, 0 < q → f.rounded r = r → |f.rounded q - q| ≤ |r - q| := by
    intro q r hq hr
    have hmagnitude := f.abs_rounded r
    rw [hr] at hmagnitude
    rw [rounded_of_nonneg hq.le]
    rcases eq_or_ne r 0 with rfl | hne
    · simpa using abs_roundedMagnitude_sub_le_abs_mul_sub (f := f) hq 0
    · calc |f.roundedMagnitude q - q| ≤ |(|r| - q)| :=
            abs_roundedMagnitude_sub_le_abs_sub hf hq (abs_pos.mpr hne) hmagnitude.symm
        _ = |(|r| - |q|)| := by rw [abs_of_pos hq]
        _ ≤ |r - q| := abs_abs_sub_abs_le _ _
  rcases lt_trichotomy q 0 with hneg | rfl | hq
  · have hopposite := hpos (neg_pos.mpr hneg) (by rw [rounded_neg, hr] : f.rounded (-r) = -r)
    rwa [rounded_neg, neg_sub_neg, neg_sub_neg, abs_sub_comm q, abs_sub_comm q] at hopposite
  · simp
  · exact hpos hq hr

/-- Where the last digit of the significand stands right before the point, rounding gives the
nearest integer. -/
theorem rounded_eq_nearestEven (hf : f.Valid) (hlow : 2 ^ (f.precision - 1) ≤ |q|)
    (hhigh : |q| ≤ 2 ^ f.precision) : f.rounded q = nearestEven q := by
  have hpos : ∀ {q : Rat}, 2 ^ (f.precision - 1) ≤ q → q ≤ 2 ^ f.precision →
      f.rounded q = nearestEven q := by
    intro q hlow hhigh
    rcases hhigh.eq_or_lt with rfl | hlt
    · have hexact := rounded_intCast hf (z := 2 ^ f.precision) (abs_of_pos (by positivity)).le
      have hinteger := nearestEven_intCast (2 ^ f.precision)
      push_cast at hexact hinteger
      rw [hexact, hinteger]
      push_cast
      rfl
    have hq : 0 < q := lt_of_lt_of_le (by positivity) hlow
    have hprecision := hf.precision_pos
    have hlog : ((f.precision - 1 : Nat) : Int) < floorLog2 q + 1 := by
      rw [← zpow_lt_zpow_iff_right₀ (one_lt_two : (1 : Rat) < 2), zpow_natCast]
      exact hlow.trans_lt (floorLog2_spec hq).2
    have hlog' : floorLog2 q < f.precision := by
      rw [← zpow_lt_zpow_iff_right₀ (one_lt_two : (1 : Rat) < 2), zpow_natCast]
      exact (floorLog2_spec hq).1.trans_lt hlt
    have hexponent : f.roundingExponent q = 0 := by
      have := hf.minExponent_nonpos
      rw [roundingExponent]
      omega
    rw [rounded_of_nonneg hq.le, roundedMagnitude, natCast_roundedSignificand hq, hexponent,
      zpow_zero, div_one, mul_one]
  rcases le_total 0 q with hq | hq
  · rw [abs_of_nonneg hq] at hlow hhigh
    exact hpos hlow hhigh
  · rw [abs_of_nonpos hq] at hlow hhigh
    have hopposite := hpos hlow hhigh
    rw [rounded_neg, nearestEven_neg] at hopposite
    push_cast at hopposite
    linarith

end Format

end Ideograph.Number
