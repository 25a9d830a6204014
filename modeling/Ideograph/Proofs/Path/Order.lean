import Ideograph.Path.Placement
import Ideograph.Proofs.Number.Denoted
import Ideograph.Proofs.Number.Representable
import Ideograph.Proofs.Path.RoundTrip

/-! # Order of written coordinates

The numbers that coordinates are written as are in the order of the coordinates. Placing a path
does not change that along an axis that it does not mirror, as long as the placed coordinates stay
finite.
-/

namespace Ideograph

open Number

namespace Number

variable {places : Nat} {x y : Double}

/-- The texts of two coordinates denote numbers, the first of which is not the greater one. -/
def WrittenInOrder (places : Nat) (x y : Double) : Prop :=
  ∃ a b, Decimal.denoted? (Scalar.text places x) = some a ∧
    Decimal.denoted? (Scalar.text places y) = some b ∧ a ≤ b

theorem writtenInOrder_of_toRat_le (hx : (x * decimalFactor places).isFinite = true)
    (hy : (y * decimalFactor places).isFinite = true) (h : x.toRat ≤ y.toRat) :
    WrittenInOrder places x y :=
  ⟨_, _, denoted?_text hx, denoted?_text hy, denotedValue_mono h⟩

theorem writtenInOrder_of_le (hx : (x * decimalFactor places).isFinite = true)
    (hy : (y * decimalFactor places).isFinite = true) (h : x ≤ y) : WrittenInOrder places x y :=
  writtenInOrder_of_toRat_le hx hy
    ((Binary.le_iff_toRat_le (Binary.isFinite_of_mul hx).1 (Binary.isFinite_of_mul hy).1).mp h)

section Axis

variable {a b t x' y' : Double}

/-- A placed coordinate is finite only if everything that it is computed from is. -/
theorem isFinite_of_placed (h : (a * x + b * y + t).isFinite = true) :
    (a * x).isFinite = true ∧ (b * y).isFinite = true ∧ t.isFinite = true := by
  obtain ⟨hsum, ht⟩ := Binary.isFinite_of_add h
  obtain ⟨hx, hy⟩ := Binary.isFinite_of_add hsum
  exact ⟨hx, hy, ht⟩

theorem toRat_placed_mono (h : (a * x + b * y + t).isFinite = true)
    (h' : (a * x' + b * y' + t).isFinite = true)
    (hx : a.toRat * x.toRat ≤ a.toRat * x'.toRat) (hy : b.toRat * y.toRat ≤ b.toRat * y'.toRat) :
    (a * x + b * y + t).toRat ≤ (a * x' + b * y' + t).toRat := by
  have hf := Format.valid_double
  obtain ⟨hax, hby, -⟩ := isFinite_of_placed h
  obtain ⟨hax', hby', -⟩ := isFinite_of_placed h'
  have hproducts : (a * x).toRat + (b * y).toRat ≤ (a * x').toRat + (b * y').toRat := by
    rw [Binary.toRat_mul hf hax, Binary.toRat_mul hf hby, Binary.toRat_mul hf hax',
      Binary.toRat_mul hf hby']
    exact add_le_add (Format.rounded_mono hf hx) (Format.rounded_mono hf hy)
  have hsums : (a * x + b * y).toRat ≤ (a * x' + b * y').toRat := by
    rw [Binary.toRat_add hf (Binary.isFinite_of_add h).1,
      Binary.toRat_add hf (Binary.isFinite_of_add h').1]
    exact Format.rounded_mono hf hproducts
  rw [Binary.toRat_add hf h, Binary.toRat_add hf h']
  exact Format.rounded_mono hf (by linarith)

/-- A term of a placed coordinate: it is in order with the coordinate, or it is zero. -/
theorem toRat_term_mono (h : (a * x).isFinite = true) (h' : (a * x').isFinite = true)
    (horder : 0.0 ≤ a ∧ x ≤ x' ∨ a = 0.0) : a.toRat * x.toRat ≤ a.toRat * x'.toRat := by
  rcases horder with ⟨ha, hle⟩ | rfl
  · obtain ⟨hfinite, hx⟩ := Binary.isFinite_of_mul h
    have hle' := (Binary.le_iff_toRat_le hx (Binary.isFinite_of_mul h').2).mp hle
    have ha' : 0 ≤ a.toRat := by
      rw [← hasValue_zero.2]
      exact (Binary.le_iff_toRat_le rfl hfinite).mp ha
    gcongr
  · rw [hasValue_zero.2, zero_mul, zero_mul]

theorem writtenInOrder_placed
    (h : ((a * x + b * y + t) * decimalFactor places).isFinite = true)
    (h' : ((a * x' + b * y' + t) * decimalFactor places).isFinite = true)
    (hx : 0.0 ≤ a ∧ x ≤ x' ∨ a = 0.0) (hy : 0.0 ≤ b ∧ y ≤ y' ∨ b = 0.0) :
    WrittenInOrder places (a * x + b * y + t) (a * x' + b * y' + t) := by
  have hplaced := (Binary.isFinite_of_mul h).1
  have hplaced' := (Binary.isFinite_of_mul h').1
  obtain ⟨hax, hby, -⟩ := isFinite_of_placed hplaced
  obtain ⟨hax', hby', -⟩ := isFinite_of_placed hplaced'
  exact writtenInOrder_of_toRat_le h h' (toRat_placed_mono hplaced hplaced'
    (toRat_term_mono hax hax' hx) (toRat_term_mono hby hby' hy))

end Axis

end Number

section Moved

variable {α : Type} [Scalar α] {p : Placement α}

/-- The point that a placement writes for a point: the point itself if nothing is moved. -/
def Placement.moved (p : Placement α) (q : Point α) : Point α :=
  if p.isIdentity then q else p.apply q

theorem Placement.moved_of_isIdentity (h : p.isIdentity = true) : p.moved = id :=
  funext fun _ => if_pos h

theorem Placement.moved_of_not_isIdentity (h : ¬ p.isIdentity = true) : p.moved = p.apply :=
  funext fun _ => if_neg h

theorem Path.place_eq_write_moved (path : Path α) (p : Placement α) (places : Nat) :
    path.place p places = (path.mapPoints p.moved).write places := by
  rw [place]
  split
  · next h => rw [Placement.moved_of_isIdentity h, mapPoints_id]
  · next h => rw [Placement.moved_of_not_isIdentity h]

end Moved

section Order

variable {places : Nat} {p : Placement Double} {q q' : Point Double}

theorem Placement.writtenInOrder_x (hscale : 0.0 ≤ p.scaleX) (hle : q.x ≤ q'.x)
    (h : ((p.moved q).x * decimalFactor places).isFinite = true)
    (h' : ((p.moved q').x * decimalFactor places).isFinite = true) :
    WrittenInOrder places (p.moved q).x (p.moved q').x := by
  by_cases hid : p.isIdentity = true
  · rw [moved_of_isIdentity hid] at h h' ⊢
    exact writtenInOrder_of_le h h' hle
  · rw [moved_of_not_isIdentity hid] at h h' ⊢
    exact writtenInOrder_placed h h' (.inl ⟨hscale, hle⟩) (.inr rfl)

theorem Placement.writtenInOrder_y (hscale : 0.0 ≤ p.scaleY) (hle : q.y ≤ q'.y)
    (h : ((p.moved q).y * decimalFactor places).isFinite = true)
    (h' : ((p.moved q').y * decimalFactor places).isFinite = true) :
    WrittenInOrder places (p.moved q).y (p.moved q').y := by
  by_cases hid : p.isIdentity = true
  · rw [moved_of_isIdentity hid] at h h' ⊢
    exact writtenInOrder_of_le h h' hle
  · rw [moved_of_not_isIdentity hid] at h h' ⊢
    exact writtenInOrder_placed h h' (.inr rfl) (.inl ⟨hscale, hle⟩)

/-- Order is kept by writing and by placing, and opposite coordinates are written as opposite
numbers. A placed coordinate stays in the range only if all that it is computed from is finite. -/
theorem Path.place_inOrder (places : Nat) {v w : Double}
    (hv : (v * decimalFactor places).isFinite = true)
    (hw : (w * decimalFactor places).isFinite = true) :
    (v ≤ w → WrittenInOrder places v w) ∧
    (∃ a, Decimal.denoted? (Scalar.text places v) = some a ∧
      Decimal.denoted? (Scalar.text places (-v)) = some (-a)) ∧
    ∀ (path : Path Double) (p : Placement Double),
      path.place p places = (path.mapPoints p.moved).write places ∧
      (0.0 ≤ p.scaleX → ∀ q q' : Point Double, q.x ≤ q'.x →
        ((p.moved q).x * decimalFactor places).isFinite = true →
        ((p.moved q').x * decimalFactor places).isFinite = true →
        WrittenInOrder places (p.moved q).x (p.moved q').x) ∧
      (0.0 ≤ p.scaleY → ∀ q q' : Point Double, q.y ≤ q'.y →
        ((p.moved q).y * decimalFactor places).isFinite = true →
        ((p.moved q').y * decimalFactor places).isFinite = true →
        WrittenInOrder places (p.moved q).y (p.moved q').y) := by
  have hneg : (-v * decimalFactor places).isFinite = true := by
    rwa [Binary.isFinite_neg_mul (Binary.isFinite_of_mul hv).1 (decimalFactor_spec places).1]
  refine ⟨writtenInOrder_of_le hv hw, ⟨_, denoted?_text hv, ?_⟩, fun path p =>
    ⟨path.place_eq_write_moved p places, fun hscale q q' => ?_, fun hscale q q' => ?_⟩⟩
  · rw [denoted?_text hneg, Binary.toRat_neg, denotedValue_neg]
  · exact p.writtenInOrder_x hscale
  · exact p.writtenInOrder_y hscale

/-- Two coordinates around zero, and a line that is drawn in the middle third of its box. -/
theorem Path.place_inOrder_third :
    let path : Path Double := [.moveTo ⟨-0.0, 71.99⟩, .lineTo ⟨72.0, 71.995⟩]
    let p : Placement Double := ⟨0.3333333333333333, 1.0, 24.0, 0.0⟩
    (-0.125 : Double) ≤ 36.125 ∧ WrittenInOrder 2 (-0.125) 36.125 ∧
      path.place p 2 = "M24 71.99L48 72" ∧
      WrittenInOrder 2 (p.moved ⟨-0.0, 71.99⟩).x (p.moved ⟨72.0, 71.995⟩).x ∧
      WrittenInOrder 2 (p.moved ⟨-0.0, 71.99⟩).y (p.moved ⟨72.0, 71.995⟩).y := by
  intro path p
  have hle : (-0.125 : Double) ≤ 36.125 := by decide +kernel
  obtain ⟨horder, -, hplace⟩ :=
    Path.place_inOrder 2 (v := -0.125) (w := 36.125) (by decide +kernel) (by decide +kernel)
  obtain ⟨-, hx, hy⟩ := hplace path p
  refine ⟨hle, horder hle, by decide +kernel, hx ?_ _ _ ?_ ?_ ?_, hy ?_ _ _ ?_ ?_ ?_⟩
  all_goals decide +kernel

end Order

end Ideograph
