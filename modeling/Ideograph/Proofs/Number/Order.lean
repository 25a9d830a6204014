import Ideograph.Proofs.Number.Settled

/-! # Rounding keeps order

Rounding to integers and to the numbers of a format is monotone and takes opposite numbers to
opposite ones. A finite result of an operation is the exact result rounded, so both laws hold of
whatever is computed from it.
-/

namespace Ideograph.Number

section Integers

variable {q r : Rat}

theorem floor_le_nearestEven (q : Rat) : q.floor ≤ nearestEven q :=
  le_nearestEven (Rat.floor_le q)

theorem nearestEven_le_floor_add_one (q : Rat) : nearestEven q ≤ q.floor + 1 := by
  refine nearestEven_le ?_
  push_cast
  exact_mod_cast (Rat.lt_floor_add_one q).le

theorem nearestEven_mono (h : q ≤ r) : nearestEven q ≤ nearestEven r := by
  have hfloor : q.floor ≤ r.floor := Rat.le_floor_iff.mpr ((Rat.floor_le q).trans h)
  rcases hfloor.lt_or_eq with hlt | heq
  · calc nearestEven q ≤ q.floor + 1 := nearestEven_le_floor_add_one q
      _ ≤ r.floor := hlt
      _ ≤ nearestEven r := floor_le_nearestEven r
  · -- Between the same integers only the rests are compared.
    rw [nearestEven, nearestEven, heq]
    split_ifs <;> first | omega | (exfalso; linarith)

theorem floor_neg (hq : (q.floor : Rat) ≠ q) : (-q).floor = -q.floor - 1 := by
  have hlt : (q.floor : Rat) < q := lt_of_le_of_ne (Rat.floor_le q) hq
  have hhigh := Rat.lt_floor_add_one q
  refine le_antisymm ?_ ?_
  · have hle : (-q).floor < -q.floor := by
      rw [Rat.floor_lt_iff]
      push_cast
      linarith
    omega
  · rw [Rat.le_floor_iff]
    push_cast
    push_cast at hhigh
    linarith

theorem nearestEven_neg (q : Rat) : nearestEven (-q) = -nearestEven q := by
  by_cases hq : (q.floor : Rat) = q
  · rw [← hq, ← Int.cast_neg, nearestEven_intCast, nearestEven_intCast]
  · -- The rest of the opposite number is what is missing to one.
    have hrest : -q - ((-q.floor - 1 : Int) : Rat) = 1 - (q - q.floor) := by
      push_cast
      ring
    rw [nearestEven, nearestEven, floor_neg hq, hrest]
    split_ifs <;> first | omega | (exfalso; linarith)

theorem nearestAway_neg (q : Rat) : nearestAway (-q) = -nearestAway q := by
  rcases lt_trichotomy q 0 with hneg | rfl | hpos
  · rw [nearestAway, nearestAway, if_neg (by linarith), if_pos hneg, neg_neg,
      show -q + 1 / 2 = 1 / 2 - q by ring]
  · decide +kernel
  · rw [nearestAway, nearestAway, if_pos (by linarith), if_neg (by linarith),
      show 1 / 2 - -q = q + 1 / 2 by ring]

theorem nearestAway_mono_of_nonneg (hq : 0 ≤ q) (h : q ≤ r) : nearestAway q ≤ nearestAway r := by
  rw [nearestAway, nearestAway, if_neg (not_lt.mpr hq), if_neg (not_lt.mpr (hq.trans h)),
    Rat.le_floor_iff]
  exact (Rat.floor_le _).trans (by linarith)

theorem nearestAway_mono (h : q ≤ r) : nearestAway q ≤ nearestAway r := by
  rcases le_or_gt 0 q with hq | hq
  · exact nearestAway_mono_of_nonneg hq h
  rcases le_or_gt 0 r with hr | hr
  · have hleft := nearestAway_nonneg (neg_nonneg.mpr hq.le)
    have hright := nearestAway_nonneg hr
    rw [nearestAway_neg] at hleft
    omega
  · have hneg := nearestAway_mono_of_nonneg (neg_nonneg.mpr hr.le) (neg_le_neg h)
    rw [nearestAway_neg, nearestAway_neg] at hneg
    omega

end Integers

namespace Format

variable {f : Format} {a b q r : Rat}

theorem floorLog2_mono (ha : 0 < a) (h : a ≤ b) : floorLog2 a ≤ floorLog2 b := by
  have hlt : (2 : Rat) ^ floorLog2 a < (2 : Rat) ^ (floorLog2 b + 1) :=
    ((floorLog2_spec ha).1.trans h).trans_lt (floorLog2_spec (ha.trans_le h)).2
  exact Int.lt_add_one_iff.mp ((zpow_lt_zpow_iff_right₀ one_lt_two).mp hlt)

theorem roundingExponent_mono (ha : 0 < a) (h : a ≤ b) :
    f.roundingExponent a ≤ f.roundingExponent b := by
  have := floorLog2_mono ha h
  rw [roundingExponent, roundingExponent]
  omega

theorem roundedMagnitude_nonneg (f : Format) (a : Rat) : 0 ≤ f.roundedMagnitude a := by
  rw [roundedMagnitude]
  positivity

@[simp] theorem roundedMagnitude_zero (f : Format) : f.roundedMagnitude 0 = 0 := by
  have hzero : nearestEven 0 = 0 := nearestEven_intCast 0
  simp [roundedMagnitude, roundedSignificand, hzero]

theorem roundedMagnitude_mono (hf : f.Valid) (ha : 0 ≤ a) (h : a ≤ b) :
    f.roundedMagnitude a ≤ f.roundedMagnitude b := by
  rcases ha.eq_or_lt with rfl | ha
  · rw [roundedMagnitude_zero]
    exact f.roundedMagnitude_nonneg b
  have hb := ha.trans_le h
  rcases (roundingExponent_mono (f := f) ha h).eq_or_lt with heq | hlt
  · rw [roundedMagnitude, roundedMagnitude, natCast_roundedSignificand ha,
      natCast_roundedSignificand hb, heq]
    gcongr
    exact_mod_cast nearestEven_mono (by gcongr)
  · -- A power of two separates numbers that are rounded at different exponents.
    have hmin : f.roundingExponent b ≠ f.minExponent := by
      have : f.minExponent ≤ f.roundingExponent a := le_max_left _ _
      omega
    have hlow : (2 : Rat) ^ (f.precision - 1) ≤ f.roundedSignificand b := by
      exact_mod_cast le_roundedSignificand hf hb hmin
    have hhigh : (f.roundedSignificand a : Rat) ≤ 2 ^ f.precision := by
      exact_mod_cast roundedSignificand_le ha
    calc f.roundedMagnitude a ≤ 2 ^ f.precision * (2 : Rat) ^ f.roundingExponent a := by
          rw [roundedMagnitude]
          gcongr
      _ = 2 ^ (f.precision - 1) * (2 : Rat) ^ (f.roundingExponent a + 1) := by
          rw [← pow_sub_one_mul hf.precision_pos.ne', zpow_add_one₀ two_ne_zero]
          ring
      _ ≤ f.roundedSignificand b * (2 : Rat) ^ f.roundingExponent b := by
          gcongr
          · exact one_le_two
          · exact hlt

/-- The value to which a number is rounded, if the format reaches that far. -/
def rounded (f : Format) (q : Rat) : Rat :=
  if q < 0 then -f.roundedMagnitude |q| else f.roundedMagnitude |q|

@[simp] theorem rounded_zero (f : Format) : f.rounded 0 = 0 := by
  simp [rounded]

theorem rounded_of_nonneg (hq : 0 ≤ q) : f.rounded q = f.roundedMagnitude q := by
  rw [rounded, if_neg (not_lt.mpr hq), abs_of_nonneg hq]

theorem rounded_neg (f : Format) (q : Rat) : f.rounded (-q) = -f.rounded q := by
  rcases lt_trichotomy q 0 with hneg | rfl | hpos
  · rw [rounded, rounded, if_neg (by linarith), if_pos hneg, abs_neg, neg_neg]
  · simp
  · rw [rounded, rounded, if_pos (by linarith), if_neg (by linarith), abs_neg]

theorem rounded_nonneg (hq : 0 ≤ q) : 0 ≤ f.rounded q := by
  rw [rounded_of_nonneg hq]
  exact f.roundedMagnitude_nonneg q

theorem rounded_mono (hf : f.Valid) (h : q ≤ r) : f.rounded q ≤ f.rounded r := by
  have hnonneg : ∀ {q r : Rat}, 0 ≤ q → q ≤ r → f.rounded q ≤ f.rounded r := by
    intro q r hq h
    rw [rounded_of_nonneg hq, rounded_of_nonneg (hq.trans h)]
    exact roundedMagnitude_mono hf hq h
  rcases le_or_gt 0 q with hq | hq
  · exact hnonneg hq h
  have hleft := rounded_nonneg (f := f) (neg_nonneg.mpr hq.le)
  rw [rounded_neg] at hleft
  rcases le_or_gt 0 r with hr | hr
  · linarith [rounded_nonneg (f := f) hr]
  · have hneg := hnonneg (neg_nonneg.mpr hr.le) (neg_le_neg h)
    rw [rounded_neg, rounded_neg] at hneg
    linarith

/-- A multiple of a place that the format has, with no more digits than it has, is exact. -/
theorem rounded_mul_zpow {z e : Int} (hz : z.natAbs < 2 ^ f.precision) (he : f.minExponent ≤ e) :
    f.rounded (z * (2 : Rat) ^ e) = z * (2 : Rat) ^ e := by
  have hnat : ∀ n : Nat, n < 2 ^ f.precision →
      f.rounded (n * (2 : Rat) ^ e) = n * (2 : Rat) ^ e := by
    intro n hn
    rcases n.eq_zero_or_pos with rfl | hpos
    · simp
    · rw [rounded_of_nonneg (by positivity), roundedMagnitude_natCast_mul hpos hn he]
  obtain ⟨n, rfl | rfl⟩ := z.eq_nat_or_neg
  · exact_mod_cast hnat n (by simpa using hz)
  · have hneg := hnat n (by simpa using hz)
    push_cast
    rw [neg_mul, rounded_neg, hneg]

theorem rounded_intCast (hf : f.Valid) {z : Int} (hz : |z| ≤ 2 ^ f.precision) :
    f.rounded z = z := by
  rcases hz.lt_or_eq with hlt | heq
  · have hlt' : z.natAbs < 2 ^ f.precision := by
      zify
      exact hlt
    simpa using rounded_mul_zpow hlt' hf.minExponent_nonpos
  · -- A power of two needs one digit only.
    have hone : (1 : Int).natAbs < 2 ^ f.precision := Nat.one_lt_two_pow hf.precision_pos.ne'
    have hexponent : f.minExponent ≤ f.precision := hf.minExponent_nonpos.trans (by omega)
    have hpower := rounded_mul_zpow hone hexponent
    rw [Int.cast_one, one_mul, zpow_natCast] at hpower
    rcases (abs_eq (by positivity)).mp heq with rfl | rfl
    · exact_mod_cast hpower
    · push_cast
      rw [rounded_neg, hpower]

/-- Rounding does not pass an integer that is a number of the format. -/
theorem abs_rounded_le (hf : f.Valid) {n : Int} (hn : |n| ≤ 2 ^ f.precision) (h : |q| ≤ n) :
    |f.rounded q| ≤ n := by
  obtain ⟨hlow, hhigh⟩ := abs_le.mp h
  have hlow' := rounded_mono hf hlow
  have hhigh' := rounded_mono hf hhigh
  rw [rounded_neg, rounded_intCast hf hn] at hlow'
  rw [rounded_intCast hf hn] at hhigh'
  exact abs_le.mpr ⟨hlow', hhigh'⟩

end Format

namespace Binary

variable {f : Format} {x y : Binary f} {q r : Rat}

/-- A finite number is the exact value rounded, whatever the sign of a zero. -/
theorem toRat_nearest_eq_rounded (hf : f.Valid) {zeroSign : Bool}
    (h : (nearest zeroSign q : Binary f).isFinite = true) :
    (nearest zeroSign q : Binary f).toRat = f.rounded q := by
  by_cases hq : q = 0
  · rw [hq, Format.rounded_zero, nearest, if_pos rfl, toRat_zero]
  · exact toRat_nearest hf hq h

theorem isFinite_neg (x : Binary f) : (-x).isFinite = x.isFinite := by
  cases x <;> rfl

theorem toRat_neg (x : Binary f) : (-x).toRat = -x.toRat := by
  cases x with
  | nan | infinite => exact neg_zero.symm
  | finite negative =>
    change toRat (finite (!negative) ..) = _
    cases negative <;> simp [toRat]

theorem isFinite_of_mul (h : (x * y).isFinite = true) :
    x.isFinite = true ∧ y.isFinite = true := by
  change (mul x y).isFinite = true at h
  cases x with
  | nan => cases y <;> cases h
  | infinite =>
    cases y with
    | nan | infinite => cases h
    | finite =>
      simp only [mul] at h
      split at h <;> cases h
  | finite =>
    cases y with
    | nan => cases h
    | infinite =>
      simp only [mul] at h
      split at h <;> cases h
    | finite => exact ⟨rfl, rfl⟩

theorem isFinite_of_add (h : (x + y).isFinite = true) :
    x.isFinite = true ∧ y.isFinite = true := by
  change (add x y).isFinite = true at h
  cases x with
  | nan => cases y <;> cases h
  | infinite =>
    cases y with
    | nan | finite => cases h
    | infinite =>
      simp only [add] at h
      split at h <;> cases h
  | finite =>
    cases y with
    | nan | infinite => cases h
    | finite => exact ⟨rfl, rfl⟩

theorem toRat_mul (hf : f.Valid) (h : (x * y).isFinite = true) :
    (x * y).toRat = f.rounded (x.toRat * y.toRat) := by
  obtain ⟨hx, hy⟩ := isFinite_of_mul h
  obtain ⟨zeroSign, hmul⟩ := mul_eq_nearest hx hy
  rw [hmul] at h ⊢
  exact toRat_nearest_eq_rounded hf h

theorem toRat_add (hf : f.Valid) (h : (x + y).isFinite = true) :
    (x + y).toRat = f.rounded (x.toRat + y.toRat) := by
  obtain ⟨hx, hy⟩ := isFinite_of_add h
  cases x with
  | nan | infinite => cases hx
  | finite =>
    cases y with
    | nan | infinite => cases hy
    | finite => exact toRat_nearest_eq_rounded hf h

theorem isFinite_nearest_neg (zeroSign zeroSign' : Bool) (q : Rat) :
    (nearest zeroSign (-q) : Binary f).isFinite = (nearest zeroSign' q : Binary f).isFinite := by
  by_cases hq : q = 0
  · rw [hq, neg_zero, nearest, nearest, if_pos rfl, if_pos rfl, zero, zero, ofParts, ofParts]
    split <;> rfl
  · rw [← neg_nearest zeroSign hq, nearest_eq_nearest zeroSign zeroSign' hq]
    exact isFinite_neg _

/-- The sign of a factor does not decide whether a product is finite. -/
theorem isFinite_neg_mul (hx : x.isFinite = true) (hy : y.isFinite = true) :
    (-x * y).isFinite = (x * y).isFinite := by
  obtain ⟨zeroSign, hmul⟩ := mul_eq_nearest hx hy
  obtain ⟨zeroSign', hneg⟩ := mul_eq_nearest ((isFinite_neg x).trans hx) hy
  rw [hmul, hneg, toRat_neg, neg_mul]
  exact isFinite_nearest_neg _ _ _

theorem le_iff_toRat_le (hx : x.isFinite = true) (hy : y.isFinite = true) :
    x ≤ y ↔ x.toRat ≤ y.toRat := by
  cases x with
  | nan | infinite => cases hx
  | finite =>
    cases y with
    | nan | infinite => cases hy
    | finite =>
      change le _ _ = true ↔ _
      rw [le, lt, eq, Bool.or_eq_true, decide_eq_true_eq, beq_iff_eq, le_iff_lt_or_eq]

end Binary

end Ideograph.Number
