import Ideograph.Proofs.Number.Closest
import Ideograph.Proofs.Number.Denoted
import Ideograph.Proofs.Number.Representable

/-! # Correct rounding and its ties

The law of rounding is to take the nearest multiple of the last place, and of two equally near ones
the one farther from zero. A coordinate that is not too large is written by this law exactly if its
product with the power of ten is not rounded up to a half, as it is for numbers that lie just below
one. Where the product has no halves it is rounded to even, so the law holds apart from ties with
their even side nearer to zero. Where the numbers of the format are farther apart than the last
places, moreover, any change is too much.
-/

namespace Ideograph.Number

section Integers

variable {q : Rat} {n m : Int}

/-- The nearest integer, and of two equally near ones the one farther from zero, by its distance
from all others. -/
structure IsNearestAway (q : Rat) (n : Int) : Prop where
  nearest : ∀ m : Int, |(n : Rat) - q| ≤ |(m : Rat) - q|
  away : ∀ m : Int, |(m : Rat) - q| = |(n : Rat) - q| → |m| ≤ |n|

theorem nearestAway_eq_iff (hq : 0 ≤ q) :
    nearestAway q = n ↔ (n : Rat) - 1 / 2 ≤ q ∧ q < n + 1 / 2 := by
  rw [nearestAway, if_neg (not_lt.mpr hq)]
  constructor
  · rintro rfl
    have hlow := Rat.floor_le (q + 1 / 2)
    have hhigh := Rat.lt_floor_add_one (q + 1 / 2)
    push_cast at hhigh
    constructor <;> linarith
  · rintro ⟨hlow, hhigh⟩
    refine le_antisymm (Int.lt_add_one_iff.mp ?_) ?_
    · rw [Rat.floor_lt_iff]
      push_cast
      linarith
    · rw [Rat.le_floor_iff]
      linarith

theorem IsNearestAway.neg (h : IsNearestAway q n) : IsNearestAway (-q) (-n) := by
  have hswap : ∀ m : Int, |(m : Rat) - -q| = |((-m : Int) : Rat) - q| := fun m => by
    rw [← abs_neg]
    push_cast
    ring_nf
  have hself := hswap (-n)
  rw [neg_neg] at hself
  refine ⟨fun m => ?_, fun m hm => ?_⟩
  · rw [hself, hswap m]
    exact h.nearest (-m)
  · rw [hself, hswap m] at hm
    simpa using h.away (-m) hm

theorem isNearestAway_of_nonneg (hq : 0 ≤ q) : IsNearestAway q (nearestAway q) := by
  obtain ⟨hlow, hhigh⟩ := (nearestAway_eq_iff hq).mp rfl
  set n := nearestAway q
  have hhalf : |(n : Rat) - q| ≤ 1 / 2 := abs_le.mpr ⟨by linarith, by linarith⟩
  refine ⟨fun m => ?_, fun m hm => ?_⟩
  · rcases lt_trichotomy m n with hlt | rfl | hgt
    · have hstep : (m : Rat) + 1 ≤ n := by exact_mod_cast hlt
      rw [abs_sub_comm (m : Rat) q, abs_of_nonneg (by linarith : 0 ≤ q - m)]
      linarith
    · exact le_rfl
    · have hstep : (n : Rat) + 1 ≤ m := by exact_mod_cast hgt
      rw [abs_of_nonneg (by linarith : 0 ≤ (m : Rat) - q)]
      linarith
  · rcases lt_trichotomy m n with hlt | rfl | hgt
    · -- An equally near integer below is the next one, and it is not negative.
      have hstep : (m : Rat) + 1 ≤ n := by exact_mod_cast hlt
      rw [abs_sub_comm (m : Rat) q, abs_of_nonneg (by linarith : 0 ≤ q - m)] at hm
      have hnonneg : (-1 : Rat) < m := by linarith
      have hnonneg' : -1 < m := by exact_mod_cast hnonneg
      rw [abs_of_nonneg (by omega), abs_of_nonneg (by omega)]
      omega
    · exact le_rfl
    · have hstep : (n : Rat) + 1 ≤ m := by exact_mod_cast hgt
      rw [abs_of_nonneg (by linarith : 0 ≤ (m : Rat) - q)] at hm
      linarith

theorem isNearestAway_nearestAway (q : Rat) : IsNearestAway q (nearestAway q) := by
  rcases le_total 0 q with hq | hq
  · exact isNearestAway_of_nonneg hq
  · have hneg := (isNearestAway_of_nonneg (neg_nonneg.mpr hq)).neg
    rwa [neg_neg, nearestAway_neg, neg_neg] at hneg

/-- The law determines the integer. -/
theorem isNearestAway_iff : IsNearestAway q n ↔ n = nearestAway q := by
  constructor
  · intro h
    have hround := isNearestAway_nearestAway q
    have hdistance := le_antisymm (h.nearest (nearestAway q)) (hround.nearest n)
    have habs := le_antisymm (hround.away n hdistance) (h.away (nearestAway q) hdistance.symm)
    rcases abs_eq_abs.mp habs with heq | hopposite
    · exact heq
    · -- Opposite integers are equally near to zero only.
      rw [hopposite] at hdistance ⊢
      push_cast at hdistance
      rcases abs_eq_abs.mp hdistance with hsame | hmirrored
      · have hzero : (nearestAway q : Rat) = 0 := by linarith
        rw [Int.cast_eq_zero.mp hzero, neg_zero]
      · have hzero : q = 0 := by linarith
        rw [hzero]
        decide +kernel
  · rintro rfl
    exact isNearestAway_nearestAway q

theorem nearestAway_eq_nearestEven_iff (hq : 0 ≤ q) :
    nearestAway q = nearestEven q ↔ ∀ k : Int, q ≠ 2 * k + 1 / 2 := by
  rw [nearestAway_eq_iff hq]
  constructor
  · rintro ⟨-, hhigh⟩ k rfl
    have heven : nearestEven (2 * k + 1 / 2) = 2 * k := by
      refine nearestEven_eq_of_near ?_ fun _ => Int.mul_emod_right 2 k
      push_cast
      rw [abs_le]
      constructor <;> linarith
    rw [heven] at hhigh
    push_cast at hhigh
    linarith
  · intro h
    obtain ⟨hlow, hhigh⟩ := abs_le.mp (abs_nearestEven_sub_le q)
    refine ⟨by linarith, lt_of_le_of_ne (by linarith) fun htie => ?_⟩
    have hdistance : |(nearestEven q : Rat) - q| = 1 / 2 := by
      rw [abs_sub_comm, abs_of_nonneg] <;> linarith
    obtain ⟨k, hk⟩ := Int.dvd_of_emod_eq_zero (even_nearestEven hdistance)
    rw [hk] at htie
    push_cast at htie
    exact h k htie

/-- Rounding to even follows the law apart from ties with their even side nearer to zero. -/
theorem isNearestAway_nearestEven_iff :
    IsNearestAway q (nearestEven q) ↔ ∀ k : Int, |q| ≠ 2 * k + 1 / 2 := by
  rw [isNearestAway_iff, eq_comm]
  rcases le_total 0 q with hq | hq
  · rw [abs_of_nonneg hq, nearestAway_eq_nearestEven_iff hq]
  · rw [abs_of_nonpos hq, ← nearestAway_eq_nearestEven_iff (neg_nonneg.mpr hq), nearestAway_neg,
      nearestEven_neg, neg_inj]

theorem nearestAway_intCast (n : Int) : nearestAway n = n := by
  refine (isNearestAway_iff.mp ⟨fun m => ?_, fun m hm => ?_⟩).symm
  · rw [sub_self, abs_zero]
    exact abs_nonneg _
  · rw [sub_self, abs_zero, abs_eq_zero, sub_eq_zero, Int.cast_inj] at hm
    rw [hm]

end Integers

section Tie

variable {q u : Rat}

/-- A half that has a last place is not rounded. -/
theorem rounded_half {k : Int} (hk : |k| ≤ 2 ^ 52 - 1) :
    Format.double.rounded (k + 1 / 2) = k + 1 / 2 := by
  have hhalf : (k : Rat) + 1 / 2 = ((2 * k + 1 : Int) : Rat) * 2 ^ (-1 : Int) := by
    push_cast
    ring
  have hprecision : Format.double.precision = 53 := rfl
  rw [hhalf]
  refine Format.rounded_mul_zpow ?_ (by decide)
  rw [hprecision]
  have := abs_le.mp hk
  omega

/-- A value that is rounded up in magnitude, to a half. -/
def IsRoundedToTie (q : Rat) : Prop :=
  |q| < |Format.double.rounded q| ∧ ∃ k : Int, Format.double.rounded q = k + 1 / 2

theorem nearestAway_rounded_iff_of_nonneg (hu : 0 ≤ u) (hbound : u ≤ 2 ^ 52) :
    nearestAway (Format.double.rounded u) = nearestAway u ↔ ¬ IsRoundedToTie u := by
  have hf := Format.valid_double
  have hrounded := Format.rounded_nonneg (f := .double) hu
  rw [IsRoundedToTie, abs_of_nonneg hu, abs_of_nonneg hrounded]
  constructor
  · rintro heq ⟨hlt, k, hk⟩
    have hup : nearestAway (Format.double.rounded u) = k + 1 := by
      rw [nearestAway_eq_iff hrounded, hk]
      push_cast
      constructor <;> linarith
    have hdown : nearestAway u ≤ k := nearestAway_le_of_lt hu (hk ▸ hlt)
    omega
  · intro htie
    obtain ⟨hlow, hhigh⟩ := (nearestAway_eq_iff hu).mp rfl
    set n := nearestAway u
    have hn : 0 ≤ n := nearestAway_nonneg hu
    have hn' : n ≤ 2 ^ 52 := by
      refine nearestAway_le_of_lt hu ?_
      push_cast
      linarith
    -- The halves around the integer are numbers of the format, but for the one above the bound.
    have hlow' : (n : Rat) - 1 / 2 ≤ Format.double.rounded u := by
      have hhalf := rounded_half (k := n - 1) (abs_le.mpr ⟨by omega, by omega⟩)
      push_cast at hhalf
      have hmono := Format.rounded_mono hf (show (n : Rat) - 1 + 1 / 2 ≤ u by linarith)
      linarith
    have hhigh' : Format.double.rounded u ≤ n + 1 / 2 := by
      rcases hn'.lt_or_eq with hlt | heq
      · have hhalf := rounded_half (k := n) (abs_le.mpr ⟨by omega, by omega⟩)
        have hmono := Format.rounded_mono hf hhigh.le
        linarith
      · have hle := Format.abs_rounded_le hf (n := n) (by rw [heq]; decide)
          (by rw [heq, abs_of_nonneg hu]; exact_mod_cast hbound)
        rw [abs_of_nonneg hrounded] at hle
        linarith
    rw [nearestAway_eq_iff hrounded]
    refine ⟨hlow', lt_of_le_of_ne hhigh' fun heq => htie ⟨?_, n, heq⟩⟩
    rwa [heq]

theorem IsRoundedToTie.neg (h : IsRoundedToTie q) : IsRoundedToTie (-q) := by
  obtain ⟨hlt, k, hk⟩ := h
  rw [IsRoundedToTie, Format.rounded_neg, abs_neg, abs_neg, hk]
  refine ⟨hk ▸ hlt, -k - 1, ?_⟩
  push_cast
  ring

/-- Before the nearest integer is taken, a value may be rounded to anything but up to a half. -/
theorem nearestAway_rounded_iff (hbound : |q| ≤ 2 ^ 52) :
    nearestAway (Format.double.rounded q) = nearestAway q ↔ ¬ IsRoundedToTie q := by
  rcases le_total 0 q with hq | hq
  · exact nearestAway_rounded_iff_of_nonneg hq (by rwa [abs_of_nonneg hq] at hbound)
  · have hneg := nearestAway_rounded_iff_of_nonneg (neg_nonneg.mpr hq)
      (by rwa [abs_of_nonpos hq] at hbound)
    have htie : IsRoundedToTie (-q) ↔ IsRoundedToTie q :=
      ⟨fun h => neg_neg q ▸ h.neg, IsRoundedToTie.neg⟩
    rwa [Format.rounded_neg, nearestAway_neg, nearestAway_neg, neg_inj, htie] at hneg

end Tie

section Coordinate

variable {places : Nat} {q : Rat} {x : Double}

/-- Below the bound only the product loses anything that shows. -/
theorem nearestEven_roundedTo (hplaces : places ≤ Scalar.maxPlaces)
    (hbound : |q * 10 ^ places| ≤ 2 ^ 52) :
    nearestEven (roundedTo places q * 10 ^ places) =
      nearestAway (Format.double.rounded (q * 10 ^ places)) := by
  have hf := Format.valid_double
  set z := nearestAway (Format.double.rounded (q * 10 ^ places)) with hz
  have hproduct : |z| ≤ 2 ^ 52 := by
    have hle := Format.abs_rounded_le hf (n := 2 ^ 52) (q := q * 10 ^ places) (by decide)
      (by exact_mod_cast hbound)
    exact abs_le.mpr (nearestAway_mem (abs_le.mp hle))
  have hinteger : Format.double.rounded (z : Rat) = z :=
    Format.rounded_intCast hf (hproduct.trans (by decide))
  have hround : nearestEven (Format.double.rounded (z / 10 ^ places) * 10 ^ places) = z := by
    by_cases hzero : z = 0
    · rw [hzero, Int.cast_zero, zero_div, Format.rounded_zero, zero_mul]
      exact nearestEven_intCast 0
    · have hcast : |(z : Rat)| ≤ 2 ^ 52 := by exact_mod_cast hproduct
      have hfinite := isFinite_ofPlaces (z := z) places (hcast.trans (by norm_num))
      have hread := abs_toRat_ofPlaces_sub_le hplaces hzero hfinite
      rw [ofPlaces, Binary.toRat_nearest_eq_rounded hf hfinite] at hread
      rw [le_div_iff₀ (by positivity)] at hread
      refine nearestEven_eq_of_near (by linarith) fun htie => ?_
      -- Only the bound itself can be that far off, and it is even.
      have hreach : (2 : Rat) ^ 52 ≤ |(z : Rat)| := by linarith
      have hreach' : 2 ^ 52 ≤ |z| := by exact_mod_cast hreach
      have heven := (abs_eq (by norm_num)).mp (le_antisymm hproduct hreach')
      omega
  rw [roundedTo, min_eq_left hplaces]
  simp only [← hz, hinteger, hround]

/-- Between the bounds the product is rounded to an integer, and the quotient is no farther from it
than the coordinate was. -/
theorem nearestEven_roundedTo_of_lt (hplaces : places ≤ Scalar.maxPlaces)
    (hlow : 2 ^ 52 < |x.toRat * 10 ^ places|) (hhigh : |x.toRat * 10 ^ places| ≤ 2 ^ 53) :
    nearestEven (roundedTo places x.toRat * 10 ^ places) = nearestEven (x.toRat * 10 ^ places) := by
  have hf := Format.valid_double
  have hpow : (0 : Rat) < 10 ^ places := by positivity
  set q := x.toRat * 10 ^ places with hq
  set z := nearestEven q with hz
  have hproduct : Format.double.rounded q = z := Format.rounded_eq_nearestEven hf hlow.le hhigh
  have hinteger : Format.double.rounded (z : Rat) = z := by
    have hle := Format.abs_rounded_le hf (n := 2 ^ 53) (by decide) (by exact_mod_cast hhigh)
    rw [hproduct] at hle
    exact Format.rounded_intCast hf (by exact_mod_cast hle)
  have hnear : |Format.double.rounded (z / 10 ^ places) * 10 ^ places - z| ≤ |z - q| := by
    have hcloser : |Format.double.rounded (z / 10 ^ places) - z / 10 ^ places| ≤
        |x.toRat - z / 10 ^ places| :=
      Format.abs_rounded_sub_le_abs_sub hf x.represents_toRat.1
    rw [abs_sub_comm (z : Rat) q, abs_mul_sub_eq hpow, hq, abs_mul_sub_eq hpow]
    gcongr
  rw [roundedTo, min_eq_left hplaces, ← hq, hproduct, nearestAway_intCast, hinteger]
  have hhalf := abs_nearestEven_sub_le q
  refine nearestEven_eq_of_near (hnear.trans hhalf) fun htie => even_nearestEven ?_
  exact le_antisymm hhalf (htie ▸ hnear)

/-- Beyond the bound a coordinate is written by the law only if it is not changed by rounding. -/
theorem toRat_eq_of_isNearestAway {x y : Double} (hbound : 2 ^ 53 < |x.toRat * 10 ^ places|)
    (h : IsNearestAway (x.toRat * 10 ^ places) (nearestEven (y.toRat * 10 ^ places))) :
    y.toRat = x.toRat := by
  by_contra hne
  have hspace : |x.toRat| ≤ 2 ^ 53 * |x.toRat - y.toRat| :=
    Binary.abs_toRat_le_mul_abs_sub (Ne.symm hne)
  have heven := abs_nearestEven_sub_le (y.toRat * 10 ^ places)
  have haway := abs_nearestAway_sub_le (x.toRat * 10 ^ places)
  rw [← isNearestAway_iff.mp h, abs_sub_comm] at haway
  set n := nearestEven (y.toRat * 10 ^ places)
  have hnear : |x.toRat - y.toRat| * 10 ^ places ≤ 1 := by
    calc |x.toRat - y.toRat| * 10 ^ places = |x.toRat * 10 ^ places - y.toRat * 10 ^ places| := by
          rw [← sub_mul, abs_mul, abs_of_pos (by positivity : (0 : Rat) < 10 ^ places)]
      _ ≤ |x.toRat * 10 ^ places - n| + |n - y.toRat * 10 ^ places| := abs_sub_le _ _ _
      _ ≤ 1 := by linarith
  refine absurd hbound (not_lt.mpr ?_)
  calc |x.toRat * 10 ^ places| = |x.toRat| * 10 ^ places := by
        rw [abs_mul, abs_of_pos (by positivity : (0 : Rat) < 10 ^ places)]
    _ ≤ 2 ^ 53 * |x.toRat - y.toRat| * 10 ^ places := by gcongr
    _ = 2 ^ 53 * (|x.toRat - y.toRat| * 10 ^ places) := mul_assoc _ _ _
    _ ≤ 2 ^ 53 := by linarith

/-- The text of a coordinate denotes the decimals of the rounded coordinate. Below a bound these
follow the law exactly if the product with the power of ten is not rounded up to a half. From there
up to the double of the bound the coordinate is rounded to even. Beyond that the law is followed
exactly if the coordinate was not changed and rounding it to even follows the law, which it does
apart from ties with their even side nearer to zero. -/
theorem denoted_isNearestAway_iff (hplaces : places ≤ Scalar.maxPlaces)
    (h : (x * decimalFactor places).isFinite = true) :
    let q := x.toRat * 10 ^ places
    let product := (x * decimalFactor places).toRat
    let rounded := (Scalar.roundTo places x).toRat
    let n := nearestEven (rounded * 10 ^ places)
    Decimal.denoted? (Scalar.text places x) = some ((n : Rat) / 10 ^ places) ∧
      (|q| ≤ 2 ^ 52 →
        (IsNearestAway q n ↔ ¬ (|q| < |product| ∧ ∃ k : Int, product = k + 1 / 2))) ∧
      (2 ^ 52 < |q| → |q| ≤ 2 ^ 53 → n = nearestEven q) ∧
      (2 ^ 53 < |q| →
        (IsNearestAway q n ↔ rounded = x.toRat ∧ IsNearestAway q (nearestEven q))) ∧
      (IsNearestAway q (nearestEven q) ↔ ∀ k : Int, |q| ≠ 2 * k + 1 / 2) := by
  intro q product rounded n
  have hrounded : rounded = roundedTo places x.toRat := toRat_roundTo h
  have hproduct : product = Format.double.rounded q := by
    have hmul := Binary.toRat_mul Format.valid_double h
    rwa [toRat_decimalFactor hplaces] at hmul
  refine ⟨?_, fun hbound => ?_, fun hlow hhigh => ?_, fun hbound => ?_,
    isNearestAway_nearestEven_iff⟩
  · rw [denoted?_text h, denotedValue, ← hrounded]
  · have hn : n = nearestAway (Format.double.rounded q) := by
      rw [← nearestEven_roundedTo hplaces hbound, ← hrounded]
    rw [isNearestAway_iff, hn, hproduct]
    exact nearestAway_rounded_iff hbound
  · rw [← nearestEven_roundedTo_of_lt hplaces hlow hhigh, ← hrounded]
  · have hn : rounded = x.toRat → n = nearestEven q := fun hsame =>
      congrArg (fun value => nearestEven (value * 10 ^ places)) hsame
    constructor
    · intro hnearest
      have hsame : rounded = x.toRat := toRat_eq_of_isNearestAway hbound hnearest
      exact ⟨hsame, hn hsame ▸ hnearest⟩
    · rintro ⟨hsame, hnearest⟩
      exact (hn hsame).symm ▸ hnearest

/-- A tie that is written away from zero, one that is written to even, and a large coordinate that
has decimals of its own. -/
theorem denoted_isNearestAway_tie :
    let x : Double := -36.125
    let y : Double := 60000000000000.125
    let z : Double := 1000000000000000.5
    Scalar.text 2 x = "-36.13".toList ∧
      IsNearestAway (x.toRat * 10 ^ 2) (nearestEven ((Scalar.roundTo 2 x).toRat * 10 ^ 2)) ∧
      Scalar.text 2 y = "60000000000000.12".toList ∧
      ¬ IsNearestAway (y.toRat * 10 ^ 2) (nearestEven ((Scalar.roundTo 2 y).toRat * 10 ^ 2)) ∧
      Scalar.text 2 z = "1000000000000000.5".toList ∧
      IsNearestAway (z.toRat * 10 ^ 2) (nearestEven ((Scalar.roundTo 2 z).toRat * 10 ^ 2)) := by
  intro x y z
  have hplaces : 2 ≤ Scalar.maxPlaces := by decide
  have hx : (x * decimalFactor 2).isFinite = true := by decide +kernel
  have hy : (y * decimalFactor 2).isFinite = true := by decide +kernel
  have hz : (z * decimalFactor 2).isFinite = true := by decide +kernel
  obtain ⟨-, hbelow, -⟩ := denoted_isNearestAway_iff hplaces hx
  obtain ⟨-, -, hbetween, -, heven⟩ := denoted_isNearestAway_iff hplaces hy
  obtain ⟨-, -, -, hbeyond, -⟩ := denoted_isNearestAway_iff hplaces hz
  refine ⟨by decide +kernel, (hbelow ?_).mpr fun htie => ?_, by decide +kernel, ?_,
    by decide +kernel, (hbeyond ?_).mpr ⟨?_, isNearestAway_iff.mpr ?_⟩⟩
  · decide +kernel
  · exact absurd htie.1 (by decide +kernel)
  · rw [hbetween (by decide +kernel) (by decide +kernel), heven]
    exact fun h => h 3000000000000006 (by decide +kernel)
  all_goals decide +kernel

/-- The number nearest to `0.615` lies below it and is written as if it lay halfway. -/
theorem denoted_not_isNearestAway :
    let x : Double := 0.615
    x.isFinite = true ∧ (x * decimalFactor 2).isFinite = true ∧ x.toRat * 10 ^ 2 < 61 + 1 / 2 ∧
      Scalar.text 2 x = "0.62".toList ∧
      Decimal.denoted? (Scalar.text 2 x) = some (((62 : Int) : Rat) / 10 ^ 2) ∧
      ¬ IsNearestAway (x.toRat * 10 ^ 2) 62 ∧ IsNearestAway (x.toRat * 10 ^ 2) 61 := by
  simp only [isNearestAway_iff]
  decide +kernel

end Coordinate

end Ideograph.Number
