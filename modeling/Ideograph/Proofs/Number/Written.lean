import Ideograph.Proofs.Number.Nearest
import Ideograph.Proofs.Number.Numeral

/-! # Coordinates read back

A coordinate is written as a numeral if it is finite once it is rounded, and as a name otherwise.
What was written is read back as the number of the numeral, and a name as no number.
-/

namespace Ideograph.Number

namespace Numeral

def zero : Numeral :=
  ⟨false, ['0'], [], by simp, by simp, by simp⟩

/-- The numeral of a coordinate, by that of its fixed notation. -/
def written (n : Numeral) : Numeral :=
  if n.trimmed.text = ['-', '0'] then zero else n.trimmed

end Numeral

/-- An arithmetic whose coordinates are read in front of one another as each is read alone. -/
class DelimitedText (α : Type) [Scalar α] : Prop where
  delimited_text : ∀ (places : Nat) (x : α), Decimal.Delimited (Scalar.text places x)

namespace Scalar

variable {α : Type} [Scalar α]

theorem text_of_toFixed {places : Nat} {x : α} {n : Numeral}
    (h : toFixed places (roundTo places x) = n.text) : text places x = n.written.text := by
  rw [text, h, Numeral.trimFraction_text, Numeral.written]
  split <;> rfl

/-- The number that is read from the text of a coordinate. -/
def reread? (places : Nat) (x : α) : Option α :=
  (Decimal.take (text places x)).map fun (d, _) => ofDecimal d

theorem reread?_of_text {places : Nat} {x : α} {n : Numeral} (h : text places x = n.text) :
    reread? places x = some (ofDecimal n.decimal) := by
  have htake := Decimal.take_text_append n Decimal.stops_nil
  rw [List.append_nil] at htake
  rw [reread?, h, htake]
  rfl

end Scalar

namespace Decimal

theorem delimited_nan : Delimited "NaN".toList where
  head := ⟨'N', ['a', 'N'], rfl, .inr rfl⟩
  take_append _ _ := rfl

theorem delimited_infinity (negative : Bool) :
    Delimited (if negative then "-inf".toList else "inf".toList) where
  head := by
    cases negative with
    | true => exact ⟨'-', ['i', 'n', 'f'], rfl, .inl rfl⟩
    | false => exact ⟨'i', ['n', 'f'], rfl, .inr rfl⟩
  take_append _ _ := by cases negative <;> rfl

end Decimal

section Double

variable {places : Nat} {x : Double}

/-- A coordinate is written by what it is rounded to. -/
theorem text_eq_written (h : (Scalar.roundTo places x).isFinite = true) :
    Scalar.text places x = (Numeral.ofFixed places (Scalar.roundTo places x).isNegative
      (Scalar.roundTo places x).toRat).written.text := by
  refine Scalar.text_of_toFixed ?_
  rw [Numeral.text_ofFixed]
  cases hround : Scalar.roundTo places x with
  | nan => simp [hround, Binary.isFinite] at h
  | infinite => simp [hround, Binary.isFinite] at h
  | finite => rfl

theorem text_of_isFinite (h : (Scalar.roundTo places x).isFinite = true) :
    ∃ n : Numeral, Scalar.text places x = n.text :=
  ⟨_, text_eq_written h⟩

theorem text_of_nan (h : Scalar.roundTo places x = .nan) :
    Scalar.text places x = "NaN".toList := by
  rw [Scalar.text, h]
  rfl

theorem text_of_infinite {negative : Bool} (h : Scalar.roundTo places x = .infinite negative) :
    Scalar.text places x = if negative then "-inf".toList else "inf".toList := by
  rw [Scalar.text, h]
  cases negative <;> rfl

instance instDelimitedTextDouble : DelimitedText Double where
  delimited_text places x := by
    rcases hround : Scalar.roundTo places x with _ | negative | _
    · rw [text_of_nan hround]
      exact Decimal.delimited_nan
    · rw [text_of_infinite hround]
      exact Decimal.delimited_infinity negative
    · have hfinite : (Scalar.roundTo places x).isFinite = true := by rw [hround]; rfl
      obtain ⟨n, htext⟩ := text_of_isFinite hfinite
      rw [htext]
      exact Decimal.delimited_text n

/-- A coordinate is read back exactly if it stays finite when it is multiplied to be rounded. -/
theorem isSome_reread?_iff :
    (Scalar.reread? places x).isSome = true ↔ (x * decimalFactor places).isFinite = true := by
  rw [← isFinite_roundTo]
  constructor
  · intro h
    rcases hround : Scalar.roundTo places x with _ | negative | _
    · rw [Scalar.reread?, text_of_nan hround] at h
      exact h
    · rw [Scalar.reread?, text_of_infinite hround] at h
      cases negative <;> exact h
    · rfl
  · intro h
    obtain ⟨n, htext⟩ := text_of_isFinite h
    rw [Scalar.reread?_of_text htext]
    rfl

end Double

section Whole

theorem toLower_of_isDigit {c : Char} (h : c.isDigit = true) : c.toLower = c := by
  have hupper : ¬ (c.val ≥ 'A'.val ∧ c.val ≤ 'Z'.val) := by
    simp only [Char.isDigit, Bool.and_eq_true, decide_eq_true_eq] at h
    rintro ⟨hlow, -⟩
    have hdigit := UInt32.le_trans hlow h.2
    exact absurd hdigit (by decide)
  exact dif_neg hupper

/-- Behind its sign a numeral begins as no name of a number does. -/
theorem map_toLower_ne_name (n : Numeral) {c : Char} (hc : c.isDigit = false)
    (name : List Char) :
    (n.whole ++ Numeral.pointed n.fraction).map Char.toLower ≠ c :: name := by
  obtain ⟨digit, more, hwhole⟩ := List.exists_cons_of_ne_nil n.whole_ne_nil
  have hdigit : digit.isDigit = true := n.isDigit_whole digit (by simp [hwhole])
  rw [hwhole, List.cons_append, List.map_cons, toLower_of_isDigit hdigit]
  intro h
  rw [(List.cons.inj h).1, hc] at hdigit
  cases hdigit

/-- An exponent is its sign and its magnitude. -/
theorem exponent_eq (n : Int) :
    (if decide (n < 0) = true then -(n.natAbs : Int) else n.natAbs) = n := by
  split
  · next hneg =>
    have := of_decide_eq_true hneg
    omega
  · next hpos =>
    have := of_decide_eq_false (Bool.eq_false_iff.mpr hpos)
    omega

theorem ofDecimal_eq (d : Decimal) : (Scalar.ofDecimal d : Double) = Binary.ofDecimal d := by
  have hmagnitude : (OfScientific.ofScientific d.significand (decide (d.exponent < 0))
      d.exponent.natAbs : Double) = Binary.ofScientific d.significand d.exponent :=
    congrArg (Binary.ofScientific d.significand) (exponent_eq d.exponent)
  rw [Scalar.ofDecimal, Binary.ofDecimal, ← hmagnitude]
  rfl

/-- A numeral is read as a whole as it is read at the front of path data. -/
theorem ofText?_text (n : Numeral) :
    (Binary.ofText? (String.ofList n.text) : Option Double) =
      some (Scalar.ofDecimal n.decimal) := by
  have hsign := Decimal.takeSign_text_append n []
  have htake := Decimal.take_text_append n Decimal.stops_nil
  rw [List.append_nil] at htake
  rw [List.append_nil, List.append_nil] at hsign
  have hname : ∀ c name, c.isDigit = false →
      String.ofList ((n.whole ++ Numeral.pointed n.fraction).map Char.toLower) ≠
        String.ofList (c :: name) := by
    intro c name hc h
    have hlist := congrArg String.toList h
    rw [String.toList_ofList, String.toList_ofList] at hlist
    exact map_toLower_ne_name n hc name hlist
  rw [Binary.ofText?, String.toList_ofList, hsign]
  dsimp only
  rw [if_neg (hname 'n' ['a', 'n'] rfl), if_neg]
  · rw [htake, ofDecimal_eq]
  · rintro (hinf | hinfinity)
    · exact hname 'i' _ rfl hinf
    · exact hname 'i' _ rfl hinfinity

variable {places : Nat} {x : Double}

/-- The number that the text of a coordinate denotes. -/
def rewritten (places : Nat) (x : Double) : Double :=
  (Binary.ofText? (String.ofList (Scalar.text places x))).getD .nan

/-- Read as a whole or in path data, the text of a coordinate is the same number. -/
theorem ofText?_eq_reread? (h : (x * decimalFactor places).isFinite = true) :
    Binary.ofText? (String.ofList (Scalar.text places x)) = some (rewritten places x) ∧
      Scalar.reread? places x = some (rewritten places x) := by
  obtain ⟨n, htext⟩ := text_of_isFinite ((isFinite_roundTo places x).trans h)
  have hwhole : Binary.ofText? (String.ofList (Scalar.text places x)) =
      some (Scalar.ofDecimal n.decimal : Double) := by
    rw [htext, ofText?_text]
  have hrewritten : rewritten places x = Scalar.ofDecimal n.decimal := by
    rw [rewritten, hwhole, Option.getD_some]
  rw [hwhole, Scalar.reread?_of_text htext, hrewritten]
  exact ⟨rfl, rfl⟩

end Whole

instance instDelimitedTextRat : DelimitedText Rat where
  delimited_text places x := by
    rw [Scalar.text_of_toFixed (n := Numeral.ofFixed places
      (decide (Scalar.roundTo places x < 0)) (Scalar.roundTo places x))
      (Numeral.text_ofFixed _ _ _).symm]
    exact Decimal.delimited_text _

end Ideograph.Number
