import Mathlib.Data.List.TakeWhile
import Mathlib.Tactic.FieldSimp
import Ideograph.Proofs.Number.Written

/-! # What a numeral denotes

Zeros that fill a numeral in front of its digits, and zeros that end its fraction, do not count. So
the text of a coordinate denotes the whole number of last places to which it was rounded.
-/

namespace Ideograph.Number

namespace Decimal

theorem natOfDigits_eq (digits : List Char) :
    natOfDigits digits = Nat.ofDigitChars 10 digits 0 :=
  Nat.ofDigitChars_eq_foldl.symm

theorem natOfDigits_append (digits more : List Char) :
    natOfDigits (digits ++ more) = 10 ^ more.length * natOfDigits digits + natOfDigits more := by
  rw [natOfDigits_eq, Nat.ofDigitChars_append, Nat.ofDigitChars_eq_ofDigitChars_zero,
    ← natOfDigits_eq, ← natOfDigits_eq]

theorem natOfDigits_replicate_zero (n : Nat) : natOfDigits (List.replicate n '0') = 0 := by
  rw [natOfDigits_eq, Nat.ofDigitChars_replicate_zero, Nat.mul_zero]

end Decimal

open Decimal

namespace Numeral

/-- The number that a numeral denotes without its sign. -/
def magnitude (n : Numeral) : Rat :=
  natOfDigits (n.whole ++ n.fraction) / 10 ^ n.fraction.length

theorem toRat_decimal (n : Numeral) :
    n.decimal.toRat = if n.negative then -n.magnitude else n.magnitude := by
  have hmagnitude : (natOfDigits (n.whole ++ n.fraction) : Rat) *
      10 ^ (-(n.fraction.length : Int)) = n.magnitude := by
    rw [magnitude, zpow_neg, zpow_natCast, div_eq_mul_inv]
  rw [Decimal.toRat, decimal]
  simp only [hmagnitude]

theorem natOfDigits_padded (places scaled : Nat) : natOfDigits (padded places scaled) = scaled := by
  rw [padded, List.leftpad, natOfDigits_append, natOfDigits_replicate_zero, Nat.mul_zero,
    Nat.zero_add, natOfDigits_eq, Nat.ofDigitChars_toDigits (by decide) (by decide)]

theorem magnitude_ofScaled (negative : Bool) (places scaled : Nat) :
    (ofScaled negative places scaled).magnitude = scaled / 10 ^ places := by
  have hdigits : (ofScaled negative places scaled).whole ++
      (ofScaled negative places scaled).fraction = padded places scaled :=
    List.take_append_drop _ _
  rw [magnitude, length_fraction_ofScaled, hdigits, natOfDigits_padded]

theorem exists_zeros (digits : List Char) :
    ∃ n, digits = (digits.reverse.dropWhile (· == '0')).reverse ++ List.replicate n '0' := by
  refine ⟨(digits.reverse.takeWhile (· == '0')).length, ?_⟩
  have hzeros : digits.reverse.takeWhile (· == '0') =
      List.replicate (digits.reverse.takeWhile (· == '0')).length '0' := by
    refine List.eq_replicate_of_mem fun c hc => ?_
    simpa using List.mem_takeWhile_imp hc
  rw [← List.reverse_inj, List.reverse_append, List.reverse_replicate, List.reverse_reverse,
    ← hzeros, List.takeWhile_append_dropWhile]

theorem magnitude_trimmed (n : Numeral) : n.trimmed.magnitude = n.magnitude := by
  obtain ⟨k, hk⟩ := exists_zeros n.fraction
  have hfraction : n.fraction = n.trimmed.fraction ++ List.replicate k '0' := hk
  have hwhole : n.whole = n.trimmed.whole := rfl
  have hdigits : natOfDigits (n.whole ++ n.fraction) =
      10 ^ k * natOfDigits (n.trimmed.whole ++ n.trimmed.fraction) := by
    rw [hfraction, hwhole, ← List.append_assoc, natOfDigits_append, natOfDigits_replicate_zero,
      Nat.add_zero, List.length_replicate]
  rw [magnitude, magnitude, hdigits, hfraction, List.length_append, List.length_replicate, pow_add]
  push_cast
  field_simp

theorem toRat_trimmed (n : Numeral) : n.trimmed.decimal.toRat = n.decimal.toRat := by
  rw [toRat_decimal, toRat_decimal, magnitude_trimmed]
  rfl

/-- A numeral is written with the value that it has. -/
theorem toRat_written (n : Numeral) : n.written.decimal.toRat = n.decimal.toRat := by
  rw [written]
  split
  · next h =>
    -- The numeral of a negative zero.
    have htake := take_text_append n.trimmed stops_nil
    have hdecimal : n.trimmed.decimal = ⟨true, 0, 0⟩ := by
      rw [List.append_nil, h] at htake
      exact (Prod.mk.inj (Option.some.inj htake.symm)).1
    rw [← toRat_trimmed n, hdecimal]
    decide +kernel
  · exact toRat_trimmed n

end Numeral

end Ideograph.Number
