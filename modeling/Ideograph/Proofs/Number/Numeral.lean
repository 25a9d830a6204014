import Mathlib.Data.List.TakeDrop
import Ideograph.Number.Scalar

/-! # Numerals

A numeral is a sign, digits, and perhaps a point with more digits. Finite numbers are written as
numerals, and a numeral is read back whole in front of what cannot continue it. What is not a
finite number is written as a name, which is not read as a number.
-/

namespace Ideograph.Number

/-- A number in digits; the point stands only in front of digits. -/
structure Numeral where
  negative : Bool
  whole : List Char
  fraction : List Char
  whole_ne_nil : whole ≠ []
  isDigit_whole : ∀ c ∈ whole, c.isDigit = true
  isDigit_fraction : ∀ c ∈ fraction, c.isDigit = true

namespace Numeral

/-- A point in front of digits. -/
def pointed : List Char → List Char
  | [] => []
  | digit :: digits => '.' :: digit :: digits

def sign (n : Numeral) : List Char :=
  if n.negative then ['-'] else []

def text (n : Numeral) : List Char :=
  n.sign ++ n.whole ++ pointed n.fraction

def decimal (n : Numeral) : Decimal :=
  ⟨n.negative, Decimal.natOfDigits (n.whole ++ n.fraction), -n.fraction.length⟩

end Numeral

/-- The codes of letters. -/
theorem toNat_of_isAlpha {c : Char} (h : c.isAlpha = true) :
    (65 ≤ c.toNat ∧ c.toNat ≤ 90) ∨ (97 ≤ c.toNat ∧ c.toNat ≤ 122) := by
  rcases Bool.or_eq_true_iff.mp (show (c.isUpper || c.isLower) = true from h) with hupper | hlower
  · have hrange : 'A'.val ≤ c.val ∧ c.val ≤ 'Z'.val := of_decide_eq_true hupper
    exact .inl hrange
  · obtain ⟨hlow, hhigh⟩ := Bool.and_eq_true_iff.mp hlower
    have hrange : 'a'.val ≤ c.val ∧ c.val ≤ 'z'.val :=
      ⟨of_decide_eq_true hlow, of_decide_eq_true hhigh⟩
    exact .inr hrange

namespace Decimal

/-- What may follow a number and is not read as more of it. -/
def Stops (rest : List Char) : Prop :=
  ∀ c ∈ rest.head?, c.isDigit = false ∧ c ≠ '.' ∧ c ≠ 'e' ∧ c ≠ 'E'

theorem stops_nil : Stops [] := by simp [Stops]

section Take

variable {digits rest : List Char}

theorem span_digits (hdigits : ∀ c ∈ digits, c.isDigit = true)
    (hrest : ∀ c ∈ rest.head?, c.isDigit = false) :
    (digits ++ rest).span Char.isDigit = (digits, rest) := by
  rw [List.span_eq_takeWhile_dropWhile, List.takeWhile_append_of_pos hdigits,
    List.dropWhile_append_of_pos hdigits]
  cases rest with
  | nil => simp
  | cons c rest =>
    have hc : c.isDigit = false := hrest c rfl
    simp [hc]

theorem takeExponent_of_stops (h : Stops rest) : takeExponent rest = some (0, rest) := by
  cases rest with
  | nil => rfl
  | cons c rest =>
    obtain ⟨-, -, he, hE⟩ := h c rfl
    simp [takeExponent, he, hE]

theorem takeSign_text_append (n : Numeral) (rest : List Char) :
    takeSign (n.text ++ rest) =
      (n.negative, n.whole ++ (Numeral.pointed n.fraction ++ rest)) := by
  obtain ⟨c, more, hwhole⟩ := List.exists_cons_of_ne_nil n.whole_ne_nil
  have hc : c.isDigit = true := n.isDigit_whole c (by simp [hwhole])
  rcases hsign : n.negative with _ | _
  · simp only [Numeral.text, Numeral.sign, hsign, hwhole, Bool.false_eq_true, if_false,
      List.nil_append, List.cons_append, List.append_assoc]
    rw [takeSign]
    · rintro tail ⟨rfl, -⟩
      exact absurd hc (by decide)
    · rintro tail ⟨rfl, -⟩
      exact absurd hc (by decide)
  · simp [Numeral.text, Numeral.sign, hsign, takeSign]

theorem takeMantissa_append (n : Numeral) (h : Stops rest) :
    takeMantissa (n.whole ++ (Numeral.pointed n.fraction ++ rest)) =
      (n.whole, n.fraction, rest) := by
  rcases hfraction : n.fraction with _ | ⟨digit, digits⟩
  · rw [takeMantissa, Numeral.pointed, List.nil_append,
      span_digits n.isDigit_whole fun c hc => (h c hc).1]
    cases rest with
    | nil => rfl
    | cons c rest =>
      obtain ⟨-, hpoint, -, -⟩ := h c rfl
      simp [hpoint]
  · have hspan := span_digits n.isDigit_fraction fun c hc => (h c hc).1
    rw [takeMantissa, Numeral.pointed, span_digits n.isDigit_whole (by simp), ← hfraction]
    simp only [List.cons_append, hspan]

/-- A numeral is read whole, and what follows it is left. -/
theorem take_text_append (n : Numeral) (h : Stops rest) :
    take (n.text ++ rest) = some (n.decimal, rest) := by
  have hdigits : (!(n.whole.isEmpty && n.fraction.isEmpty)) = true := by
    simp [n.whole_ne_nil]
  rw [take, takeSign_text_append]
  dsimp only
  rw [takeMantissa_append n h, takeExponent_of_stops h]
  dsimp only [bind, Option.bind]
  rw [hdigits]
  simp [guard, Numeral.decimal]

end Take

/-- A text that is read in front of what stops a number as it is read alone. -/
structure Delimited (cs : List Char) : Prop where
  head : ∃ c rest, cs = c :: rest ∧ (c = '-' ∨ c.isAlphanum)
  take_append : ∀ rest, Stops rest → take (cs ++ rest) = (take cs).map fun (d, _) => (d, rest)

theorem delimited_text (n : Numeral) : Delimited n.text where
  head := by
    obtain ⟨c, more, hwhole⟩ := List.exists_cons_of_ne_nil n.whole_ne_nil
    have hc : c.isDigit = true := n.isDigit_whole c (by simp [hwhole])
    rw [Numeral.text, Numeral.sign, hwhole]
    split
    · exact ⟨'-', _, rfl, .inl rfl⟩
    · exact ⟨c, _, rfl, .inr (by simp [Char.isAlphanum, hc])⟩
  take_append rest h := by
    have halone := take_text_append n stops_nil
    rw [List.append_nil] at halone
    rw [take_text_append n h, halone]
    rfl

end Decimal

namespace Numeral

/-! ## Fixed notation -/

def padded (places scaled : Nat) : List Char :=
  (Nat.toDigits 10 scaled).leftpad (places + 1) '0'

theorem isDigit_padded {places scaled : Nat} : ∀ c ∈ padded places scaled, c.isDigit = true := by
  intro c hc
  rcases List.mem_append.mp hc with hzero | hdigit
  · rw [List.eq_of_mem_replicate hzero]
    rfl
  · exact Nat.isDigit_of_mem_toDigits (by decide) (Nat.le_refl 10) hdigit

theorem lt_length_padded (places scaled : Nat) : places < (padded places scaled).length := by
  rw [padded, List.length_leftpad]
  exact Nat.lt_of_succ_le (Nat.le_max_left _ _)

/-- The numeral of `scaled / 10 ^ places`, with all its places. -/
def ofScaled (negative : Bool) (places scaled : Nat) : Numeral where
  negative := negative
  whole := (padded places scaled).take ((padded places scaled).length - places)
  fraction := (padded places scaled).drop ((padded places scaled).length - places)
  whole_ne_nil := by
    have := lt_length_padded places scaled
    rw [← List.length_pos_iff, List.length_take]
    omega
  isDigit_whole c hc := isDigit_padded c (List.mem_of_mem_take hc)
  isDigit_fraction c hc := isDigit_padded c (List.mem_of_mem_drop hc)

theorem length_fraction_ofScaled (negative : Bool) (places scaled : Nat) :
    (ofScaled negative places scaled).fraction.length = places := by
  have := lt_length_padded places scaled
  simp only [ofScaled, List.length_drop]
  omega

/-- The numeral that fixed notation writes. -/
def ofFixed (places : Nat) (negative : Bool) (q : Rat) : Numeral :=
  ofScaled negative places (nearestEven (q.abs * (10 : Rat) ^ places)).toNat

theorem fixedMagnitude_abs (places : Nat) (negative : Bool) (q : Rat) :
    fixedMagnitude places q.abs =
      (ofFixed places negative q).whole ++ pointed (ofFixed places negative q).fraction := by
  have hlen : (ofFixed places negative q).fraction.length = places :=
    length_fraction_ofScaled _ _ _
  change (if places = 0 then (ofFixed places negative q).whole
    else (ofFixed places negative q).whole ++ '.' :: (ofFixed places negative q).fraction) = _
  rcases hfraction : (ofFixed places negative q).fraction with _ | ⟨digit, digits⟩
  · rw [hfraction, List.length_nil] at hlen
    simp [← hlen, pointed]
  · rw [hfraction, List.length_cons] at hlen
    simp [← hlen, pointed]

theorem text_ofFixed (places : Nat) (negative : Bool) (q : Rat) :
    (ofFixed places negative q).text = fixed places negative q := by
  rw [fixed, fixedMagnitude_abs places negative q]
  cases negative <;> rfl

/-- The same numeral without the zeros that end its fraction. -/
def trimmed (n : Numeral) : Numeral :=
  { n with
    fraction := (n.fraction.reverse.dropWhile (· == '0')).reverse
    isDigit_fraction := fun c hc => n.isDigit_fraction c <| by
      simpa using (List.dropWhile_suffix _).subset (List.mem_reverse.mp hc) }

theorem ne_point_of_isDigit {c : Char} (h : c.isDigit = true) : c ≠ '.' := by
  rintro rfl
  exact absurd h (by decide)

theorem dropWhile_eq_self {p : Char → Bool} {cs : List Char} (h : ∀ c ∈ cs.head?, p c = false) :
    cs.dropWhile p = cs := by
  cases cs with
  | nil => rfl
  | cons c cs => simp [h c rfl]

/-- Behind a point zeros are dropped, and the point too if nothing else stands there. -/
theorem trimFraction_point (before fraction : List Char)
    (hbefore : ∀ c ∈ before.getLast?, c ≠ '.')
    (hfraction : ∀ c ∈ fraction, c ≠ '.') :
    Scalar.trimFraction (before ++ '.' :: fraction) =
      before ++ pointed (fraction.reverse.dropWhile (· == '0')).reverse := by
  rw [Scalar.trimFraction, if_pos (by simp), List.reverse_append, List.reverse_cons,
    List.append_assoc, List.singleton_append, List.dropWhile_append]
  rcases hkept : fraction.reverse.dropWhile (· == '0') with _ | ⟨digit, digits⟩
  · have hpoint : before.reverse.dropWhile (· == '.') = before.reverse := by
      refine dropWhile_eq_self fun c hc => ?_
      rw [List.head?_reverse] at hc
      simpa using hbefore c hc
    simp [hpoint, pointed]
  · have hmem : digit ∈ fraction.reverse :=
      (List.dropWhile_suffix _).subset (hkept ▸ List.mem_cons_self)
    have hdigit : digit ≠ '.' := hfraction digit (List.mem_reverse.mp hmem)
    obtain ⟨first, more, hfirst⟩ :=
      List.exists_cons_of_ne_nil (l := (digit :: digits).reverse) (by simp)
    rw [hfirst, pointed, ← hfirst]
    simp [hdigit]

theorem trimFraction_text (n : Numeral) : Scalar.trimFraction n.text = n.trimmed.text := by
  have hwhole : ∀ c ∈ n.sign ++ n.whole, c ≠ '.' := by
    intro c hc
    rcases List.mem_append.mp hc with hsign | hdigit
    · rw [sign] at hsign
      split at hsign <;> simp_all
    · exact ne_point_of_isDigit (n.isDigit_whole c hdigit)
  rcases hfraction : n.fraction with _ | ⟨digit, digits⟩
  · have hpoint : ¬ ((n.sign ++ n.whole).contains '.' = true) := by
      simpa using fun h => hwhole '.' h rfl
    have htrimmed : n.trimmed.text = n.sign ++ n.whole := by
      rw [text]
      simp [trimmed, hfraction, pointed, sign]
    rw [htrimmed, text, hfraction, pointed, List.append_nil, Scalar.trimFraction, if_neg hpoint]
  · have hpoint := trimFraction_point (n.sign ++ n.whole) n.fraction
      (fun c hc => hwhole c (List.mem_of_mem_getLast? hc))
      (fun c hc => ne_point_of_isDigit (n.isDigit_fraction c hc))
    rw [text, hfraction, pointed, ← hfraction, hpoint]
    rfl

end Numeral

end Ideograph.Number
