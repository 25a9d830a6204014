import Ideograph.Proofs.Number.Denoted
import Ideograph.Proofs.Path.ReadBack

/-! # Canonical numerals

A coordinate is written without digits that carry no value: no zero leads the digits of its whole
part, none ends its fraction, and zero has no sign. Numerals of this form are equal as texts as soon
as they denote the same number, whatever the coordinates and the decimals they come from.
-/

namespace Ideograph.Number

namespace Decimal

section Digits

variable {c d : Char} {digits more : List Char}

theorem toNat_of_isDigit (h : c.isDigit = true) : 48 ≤ c.toNat ∧ c.toNat ≤ 57 := by
  simp only [Char.isDigit, Bool.and_eq_true, decide_eq_true_eq, ge_iff_le,
    UInt32.le_iff_toNat_le] at h
  exact h

theorem eq_zero_of_isDigit (h : c.isDigit = true) (hzero : c.toNat - 48 = 0) : c = '0' := by
  have hbounds := toNat_of_isDigit h
  exact Char.toNat_inj.mp (show c.toNat = 48 by omega)

theorem natOfDigits_cons (c : Char) (digits : List Char) :
    natOfDigits (c :: digits) = 10 ^ digits.length * (c.toNat - 48) + natOfDigits digits := by
  have happend := natOfDigits_append [c] digits
  have hsingle : natOfDigits [c] = c.toNat - 48 := by simp [natOfDigits]
  rw [← hsingle]
  exact happend

theorem natOfDigits_lt (h : ∀ c ∈ digits, c.isDigit = true) :
    natOfDigits digits < 10 ^ digits.length := by
  induction digits with
  | nil => decide
  | cons c digits ih =>
    have hrest := ih fun d hd => h d (List.mem_cons_of_mem c hd)
    have hc := toNat_of_isDigit (h c List.mem_cons_self)
    rw [natOfDigits_cons, List.length_cons, pow_succ]
    nlinarith [show c.toNat - 48 ≤ 9 by omega]

/-- Digits in the same number are determined by what they denote. -/
theorem eq_of_natOfDigits_eq (h : ∀ c ∈ digits, c.isDigit = true)
    (hmore : ∀ c ∈ more, c.isDigit = true) (hlen : digits.length = more.length)
    (heq : natOfDigits digits = natOfDigits more) : digits = more := by
  induction digits generalizing more with
  | nil => exact (List.length_eq_zero_iff.mp hlen.symm).symm
  | cons c digits ih =>
    cases more with
    | nil => cases hlen
    | cons d more =>
      have hlen' : digits.length = more.length := Nat.succ.inj hlen
      have hdigits : ∀ c ∈ digits, c.isDigit = true := fun e he => h e (List.mem_cons_of_mem c he)
      have hmore' : ∀ c ∈ more, c.isDigit = true := fun e he => hmore e (List.mem_cons_of_mem d he)
      have hlow := natOfDigits_lt hdigits
      have hlow' := natOfDigits_lt hmore'
      rw [natOfDigits_cons, natOfDigits_cons, ← hlen'] at heq
      rw [← hlen'] at hlow'
      have hfirst : c.toNat - 48 = d.toNat - 48 := by
        have hdiv := congrArg (· / 10 ^ digits.length) heq
        simpa only [Nat.mul_add_div (show 0 < 10 ^ digits.length by positivity),
          Nat.div_eq_of_lt hlow, Nat.div_eq_of_lt hlow', Nat.add_zero] using hdiv
      have hrest : natOfDigits digits = natOfDigits more := by
        rw [hfirst] at heq
        exact Nat.add_left_cancel heq
      have hc := toNat_of_isDigit (h c List.mem_cons_self)
      have hd := toNat_of_isDigit (hmore d List.mem_cons_self)
      rw [ih hdigits hmore' hlen' hrest, Char.toNat_inj.mp (show c.toNat = d.toNat by omega)]

theorem eq_zero_of_natOfDigits_eq_zero (h : ∀ c ∈ digits, c.isDigit = true)
    (hzero : natOfDigits digits = 0) : ∀ c ∈ digits, c = '0' := by
  induction digits with
  | nil => simp
  | cons c digits ih =>
    rw [natOfDigits_cons, Nat.add_eq_zero_iff, mul_eq_zero] at hzero
    intro d hd
    rcases List.mem_cons.mp hd with rfl | hd
    · exact eq_zero_of_isDigit (h d List.mem_cons_self) (hzero.1.resolve_left (by positivity))
    · exact ih (fun e he => h e (List.mem_cons_of_mem c he)) hzero.2 d hd

/-- Only the digits of zero begin with a zero. -/
theorem eq_nil_of_toDigits_eq_zero_cons {n : Nat} (h : Nat.toDigits 10 n = '0' :: digits) :
    digits = [] := by
  by_contra hne
  have hpos : 0 < digits.length := List.length_pos_iff.mpr hne
  have hdigits : ∀ c ∈ digits, c.isDigit = true := fun c hc =>
    Nat.isDigit_of_mem_toDigits (by decide) (Nat.le_refl 10) (h ▸ List.mem_cons_of_mem _ hc)
  have hvalue : n = natOfDigits digits := by
    have hdenoted := natOfDigits_cons '0' digits
    rw [← h, natOfDigits_eq, Nat.ofDigitChars_toDigits (by decide) (by decide)] at hdenoted
    simpa using hdenoted
  have hlen := (Nat.length_toDigits_le_iff (by decide) hpos).mpr (hvalue ▸ natOfDigits_lt hdigits)
  rw [h, List.length_cons] at hlen
  omega

end Digits

end Decimal

open Decimal

namespace Numeral

/-- A numeral without digits or a sign that carry no value. -/
structure Canonical (n : Numeral) : Prop where
  whole_eq : n.whole.head? = some '0' → n.whole = ['0']
  fraction_ne : n.fraction.getLast? ≠ some '0'
  text_ne : n.text ≠ ['-', '0']

/-! ## What is written is canonical -/

theorem canonical_zero : zero.Canonical :=
  ⟨by simp [zero], by simp [zero], by simp [zero, text, sign, pointed]⟩

theorem whole_ofScaled_eq (negative : Bool) (places scaled : Nat)
    (h : (ofScaled negative places scaled).whole.head? = some '0') :
    (ofScaled negative places scaled).whole = ['0'] := by
  change ((padded places scaled).take _).head? = some '0' at h
  change (padded places scaled).take _ = ['0']
  have hlength : (padded places scaled).length =
      max (places + 1) (Nat.toDigits 10 scaled).length := List.length_leftpad
  rcases le_or_gt (Nat.toDigits 10 scaled).length (places + 1) with hshort | hlong
  · -- Filled up with zeros, the numeral has one digit in front of its point.
    have hone : (padded places scaled).length - places = 1 := by omega
    rw [hone, List.take_one] at h ⊢
    cases hhead : (padded places scaled).head? <;> simp_all
  · -- Not filled up, it begins with the first digit of its number.
    have hpadded : padded places scaled = Nat.toDigits 10 scaled := by
      rw [padded, List.leftpad, Nat.sub_eq_zero_of_le hlong.le, List.replicate_zero,
        List.nil_append]
    obtain ⟨c, digits, hdigits⟩ := List.exists_cons_of_length_pos
      (show 0 < (Nat.toDigits 10 scaled).length by omega)
    have hc : c = '0' := by
      rw [hpadded, List.head?_take, hdigits] at h
      split at h
      · cases h
      · exact Option.some.inj h
    have hnil : digits = [] := eq_nil_of_toDigits_eq_zero_cons (hc ▸ hdigits)
    rw [hdigits, hnil] at hlong
    simp at hlong

theorem fraction_trimmed_ne (n : Numeral) : n.trimmed.fraction.getLast? ≠ some '0' := by
  intro h
  rw [trimmed, List.getLast?_reverse] at h
  have hnot := List.head?_dropWhile_not (· == '0') n.fraction.reverse
  rw [h] at hnot
  simp at hnot

theorem canonical_written_ofScaled (negative : Bool) (places scaled : Nat) :
    (ofScaled negative places scaled).written.Canonical := by
  rw [written]
  split
  · exact canonical_zero
  · next h => exact ⟨whole_ofScaled_eq negative places scaled, fraction_trimmed_ne _, h⟩

theorem length_fraction_written_le (negative : Bool) (places scaled : Nat) :
    (ofScaled negative places scaled).written.fraction.length ≤ places := by
  have h := (exponent_written (ofScaled negative places scaled)).1
  rw [length_fraction_ofScaled] at h
  simp only [decimal] at h
  omega

/-! ## Canonical numerals are determined by their value -/

section Unique

variable {n m : Numeral}

/-- All digits of a numeral. -/
def digits (n : Numeral) : List Char :=
  n.whole ++ n.fraction

theorem isDigit_digits (n : Numeral) : ∀ c ∈ n.digits, c.isDigit = true := by
  intro c hc
  rcases List.mem_append.mp hc with hwhole | hfraction
  · exact n.isDigit_whole c hwhole
  · exact n.isDigit_fraction c hfraction

theorem magnitude_eq (n : Numeral) :
    n.magnitude = natOfDigits n.digits / 10 ^ n.fraction.length :=
  rfl

theorem magnitude_nonneg (n : Numeral) : 0 ≤ n.magnitude := by
  rw [magnitude_eq]
  positivity

theorem Canonical.magnitude_pos (hn : n.Canonical) (hnegative : n.negative = true) :
    0 < n.magnitude := by
  rcases Nat.eq_zero_or_pos (natOfDigits n.digits) with hzero | hpos
  · -- All digits are zeros, so that there is one, behind a sign.
    have hdigits := eq_zero_of_natOfDigits_eq_zero n.isDigit_digits hzero
    have hwhole : n.whole = ['0'] := by
      obtain ⟨c, rest, hcons⟩ := List.exists_cons_of_ne_nil n.whole_ne_nil
      refine hn.whole_eq ?_
      rw [hcons, List.head?_cons, hdigits c (by simp [digits, hcons])]
    have hfraction : n.fraction = [] := by
      by_contra hne
      refine hn.fraction_ne ?_
      rw [List.getLast?_eq_some_getLast hne,
        hdigits _ (List.mem_append_right _ (List.getLast_mem hne))]
    refine absurd ?_ hn.text_ne
    simp [text, sign, hnegative, hwhole, hfraction, pointed]
  · rw [magnitude_eq]
    positivity

/-- A canonical fraction is not longer than another one for the same number. -/
theorem Canonical.length_fraction_le (hm : m.Canonical) (h : n.magnitude = m.magnitude) :
    m.fraction.length ≤ n.fraction.length := by
  by_contra hlt
  obtain ⟨k, hk⟩ := Nat.exists_eq_add_of_lt (not_le.mp hlt)
  have hdigits : natOfDigits m.digits = natOfDigits n.digits * 10 ^ (k + 1) := by
    have hpow : (10 : Rat) ^ m.fraction.length = 10 ^ n.fraction.length * 10 ^ (k + 1) := by
      rw [hk, ← pow_add, Nat.add_assoc]
    rw [magnitude_eq, magnitude_eq, hpow, div_eq_div_iff (by positivity) (by positivity)] at h
    have hcast : (natOfDigits m.digits : Rat) = natOfDigits n.digits * 10 ^ (k + 1) := by
      have hne : (10 : Rat) ^ n.fraction.length ≠ 0 := by positivity
      refine mul_right_cancel₀ hne ?_
      linarith
    exact_mod_cast hcast
  -- The last digit of the longer fraction would be a zero.
  have hne : m.fraction ≠ [] := List.ne_nil_of_length_pos (by omega)
  have hlast := natOfDigits_append (m.whole ++ m.fraction.dropLast) [m.fraction.getLast hne]
  rw [List.append_assoc, List.dropLast_append_getLast] at hlast
  change natOfDigits m.digits = _ at hlast
  have hdigit := m.isDigit_fraction _ (List.getLast_mem hne)
  have hbounds := toNat_of_isDigit hdigit
  have hsingle : natOfDigits [m.fraction.getLast hne] = (m.fraction.getLast hne).toNat - 48 := by
    simp [natOfDigits]
  have hshift : natOfDigits n.digits * 10 ^ (k + 1) = 10 * (natOfDigits n.digits * 10 ^ k) := by
    ring
  rw [hsingle, hdigits, List.length_singleton, pow_one, hshift] at hlast
  have hzero := eq_zero_of_isDigit hdigit (by omega)
  exact hm.fraction_ne (by rw [List.getLast?_eq_some_getLast hne, hzero])

/-- The whole part of a canonical numeral is not longer than another one of the same digits. -/
theorem Canonical.length_whole_le (hm : m.Canonical)
    (hfraction : n.fraction.length = m.fraction.length)
    (h : natOfDigits n.digits = natOfDigits m.digits) : m.whole.length ≤ n.whole.length := by
  by_contra hlt
  obtain ⟨c, rest, hcons⟩ := List.exists_cons_of_ne_nil m.whole_ne_nil
  have hc : c.isDigit = true := m.isDigit_whole c (by simp [hcons])
  have hpos : 0 < n.whole.length := List.length_pos_iff.mpr n.whole_ne_nil
  have hne : c.toNat - 48 ≠ 0 := by
    intro hzero
    have hwhole := hm.whole_eq (by rw [hcons, eq_zero_of_isDigit hc hzero]; rfl)
    rw [hwhole, List.length_singleton] at hlt
    omega
  have hhigh := natOfDigits_lt n.isDigit_digits
  have hlow : 10 ^ (rest ++ m.fraction).length ≤ natOfDigits m.digits := by
    rw [digits, hcons, List.cons_append, natOfDigits_cons]
    exact (Nat.le_mul_of_pos_right _ (Nat.pos_of_ne_zero hne)).trans (Nat.le_add_right _ _)
  have hlength : n.digits.length ≤ (rest ++ m.fraction).length := by
    rw [hcons, List.length_cons] at hlt
    rw [digits, List.length_append, List.length_append]
    omega
  have hpow := Nat.pow_le_pow_right (show 0 < 10 by decide) hlength
  omega

/-- Canonical numerals of the same number are the same text. -/
theorem Canonical.text_eq (hn : n.Canonical) (hm : m.Canonical)
    (h : n.decimal.toRat = m.decimal.toRat) : n.text = m.text := by
  rw [toRat_decimal, toRat_decimal] at h
  obtain ⟨hsign, hmagnitude⟩ : n.negative = m.negative ∧ n.magnitude = m.magnitude := by
    have hn' := hn.magnitude_pos
    have hm' := hm.magnitude_pos
    have := n.magnitude_nonneg
    have := m.magnitude_nonneg
    rcases hns : n.negative with _ | _ <;> rcases hms : m.negative with _ | _ <;>
      simp [hns, hms] at h hn' hm' ⊢ <;> linarith
  have hfraction : n.fraction.length = m.fraction.length :=
    le_antisymm (hn.length_fraction_le hmagnitude.symm) (hm.length_fraction_le hmagnitude)
  have hdenoted : natOfDigits n.digits = natOfDigits m.digits := by
    rw [magnitude_eq, magnitude_eq, hfraction, div_left_inj' (by positivity)] at hmagnitude
    exact_mod_cast hmagnitude
  have hwhole : n.whole.length = m.whole.length :=
    le_antisymm (hn.length_whole_le hfraction.symm hdenoted.symm)
      (hm.length_whole_le hfraction hdenoted)
  have hdigits : n.digits = m.digits :=
    eq_of_natOfDigits_eq n.isDigit_digits m.isDigit_digits
      (by rw [digits, digits, List.length_append, List.length_append, hwhole, hfraction]) hdenoted
  obtain ⟨hw, hf⟩ := List.append_inj hdigits hwhole
  rw [text, text, sign, sign, hsign, hw, hf]

end Unique

end Numeral

open Ideograph.Path

/-- Data at its end, or in front of a space or a letter that begins no exponent. -/
def BehindNumber (rest : List Char) : Prop :=
  ∀ c ∈ rest.head?, c = ' ' ∨ c.isAlpha = true ∧ c ≠ 'e' ∧ c ≠ 'E'

theorem not_isDigit_of_isAlpha {c : Char} (h : c.isAlpha = true) : c.isDigit = false := by
  by_contra hdigit
  have hbounds := toNat_of_isDigit (Bool.not_eq_false _ ▸ hdigit)
  have hletter := toNat_of_isAlpha h
  omega

theorem BehindNumber.stops {rest : List Char} (h : BehindNumber rest) : Stops rest := by
  intro c hc
  rcases h c hc with rfl | ⟨halpha, he, hE⟩
  · decide
  · refine ⟨not_isDigit_of_isAlpha halpha, ?_, he, hE⟩
    rintro rfl
    cases halpha

/-- A coordinate that stays finite is written as a canonical numeral with as many decimals at most
as asked for. Two such texts are the same if they denote the same number, and each is read up to its
end and no further. -/
theorem text_canonical (places : Nat) {x : Double}
    (h : (x * decimalFactor places).isFinite = true) :
    (∃ n : Numeral, Scalar.text places x = n.text ∧ n.Canonical ∧ n.fraction.length ≤ places) ∧
    (∀ (places' : Nat) (y : Double), (y * decimalFactor places').isFinite = true →
      ∃ a b, denoted? (Scalar.text places x) = some a ∧
        denoted? (Scalar.text places' y) = some b ∧
        (a = b ↔ Scalar.text places x = Scalar.text places' y)) ∧
    ∀ rest, BehindNumber rest →
      (Reader.number : Reader Double).run (Scalar.text places x ++ rest) =
        .ok (rewritten places x, rest) := by
  have hcanonical : ∀ (places : Nat) {x : Double}, (x * decimalFactor places).isFinite = true →
      ∃ n : Numeral, Scalar.text places x = n.text ∧ n.Canonical ∧ n.fraction.length ≤ places :=
    fun places x h => ⟨_, text_eq_written ((isFinite_roundTo places x).trans h),
      Numeral.canonical_written_ofScaled _ _ _, Numeral.length_fraction_written_le _ _ _⟩
  obtain ⟨n, htext, hn, hlength⟩ := hcanonical places h
  refine ⟨⟨n, htext, hn, hlength⟩, fun places' y hy => ?_, fun rest hrest => ?_⟩
  · obtain ⟨m, htext', hm, -⟩ := hcanonical places' hy
    have hdenoted := n.denoted?_text
    have hdenoted' := m.denoted?_text
    rw [htext, htext']
    refine ⟨_, _, hdenoted, hdenoted', hn.text_eq hm, fun heq => ?_⟩
    rw [heq, hdenoted'] at hdenoted
    exact (Option.some.inj hdenoted).symm
  · have hread : reread places x = .ok (rewritten places x) := by
      rw [reread, (ofText?_eq_reread? h).2]
    rw [Reader.number_text places x hrest.stops, hread]
    rfl

/-- Two coordinates with the same text at different decimals, in front of a command. -/
theorem text_canonical_negative :
    let x : Double := -7.126
    let y : Double := -7.13
    (x * decimalFactor 2).isFinite = true ∧ (y * decimalFactor 3).isFinite = true ∧
      BehindNumber "L0 0".toList ∧ Scalar.text 2 x = "-7.13".toList ∧
      (∃ n : Numeral, Scalar.text 2 x = n.text ∧ n.Canonical ∧ n.fraction.length ≤ 2) ∧
      (∃ a b, denoted? (Scalar.text 2 x) = some a ∧ denoted? (Scalar.text 3 y) = some b ∧
        (a = b ↔ Scalar.text 2 x = Scalar.text 3 y)) ∧
      (Reader.number : Reader Double).run (Scalar.text 2 x ++ "L0 0".toList) =
        .ok (rewritten 2 x, "L0 0".toList) := by
  intro x y
  have hx : (x * decimalFactor 2).isFinite = true := by decide +kernel
  have hy : (y * decimalFactor 3).isFinite = true := by decide +kernel
  have hrest : BehindNumber "L0 0".toList := by
    rintro c hc
    obtain rfl : 'L' = c := Option.some.inj hc
    decide
  obtain ⟨hnumeral, hunique, hread⟩ := text_canonical 2 hx
  exact ⟨hx, hy, hrest, by decide +kernel, hnumeral, hunique 3 y hy, hread _ hrest⟩

end Ideograph.Number
