import Ideograph.Path.Placement
import Ideograph.Proofs.Number.Representable
import Ideograph.Proofs.Path.RoundTrip

/-! # Paths that are not moved

A placement that equals the identity is skipped. Computed with all entries of its matrix, it would
leave the value of every finite coordinate, and at most change the sign of a zero. No text shows
that sign, so nothing is lost by skipping it.
-/

namespace Ideograph

open Number

namespace Number

/-- A coordinate that is computed as one of its own, nothing of the other one, and no shift. -/
theorem hasValue_unmoved {a b t x y : Double} (ha : a.HasValue 1) (hb : b.HasValue 0)
    (ht : t.HasValue 0) (hx : x.isFinite = true) (hy : y.isFinite = true) :
    (a * x + b * y + t).HasValue x.toRat ∧ (b * y + a * x + t).HasValue x.toRat := by
  have hf := Format.valid_double
  have hrepresents := x.represents_toRat
  have hown : (a * x).HasValue x.toRat := by
    have h := ha.mul hf ⟨hx, rfl⟩ (by rwa [one_mul])
    rwa [one_mul] at h
  have hother : (b * y).HasValue 0 := by
    have h := hb.mul hf ⟨hy, rfl⟩ (by rw [zero_mul]; exact Binary.represents_zero _)
    rwa [zero_mul] at h
  constructor
  · have hsum := hown.add hf hother (by rwa [add_zero])
    have h := hsum.add hf ht (by rwa [add_zero, add_zero])
    rwa [add_zero, add_zero] at h
  · have hsum := hother.add hf hown (by rwa [zero_add])
    have h := hsum.add hf ht (by rwa [add_zero, zero_add])
    rwa [add_zero, zero_add] at h

end Number

/-- A path none of whose coordinates is an infinity or not a number. -/
def Path.AllFinite (path : Path Double) : Prop :=
  ∀ e ∈ path, ∀ q ∈ e.points, q.x.isFinite = true ∧ q.y.isFinite = true

instance Path.instDecidableAllFinite (path : Path Double) : Decidable path.AllFinite :=
  inferInstanceAs (Decidable (∀ e ∈ path, ∀ q ∈ e.points, _))

namespace Placement

variable {p : Placement Double}

theorem hasValue_of_isIdentity (h : p.isIdentity = true) :
    p.scaleX.HasValue 1 ∧ p.scaleY.HasValue 1 ∧ p.translateX.HasValue 0 ∧
      p.translateY.HasValue 0 := by
  simp only [isIdentity, Bool.and_eq_true] at h
  obtain ⟨⟨⟨hx, hy⟩, htx⟩, hty⟩ := h
  exact ⟨hasValue_one.of_beq hx, hasValue_one.of_beq hy, hasValue_zero.of_beq htx,
    hasValue_zero.of_beq hty⟩

/-- The image of a point under the identity has the values of the point. -/
theorem hasValue_apply (h : p.isIdentity = true) {q : Point Double} (hx : q.x.isFinite = true)
    (hy : q.y.isFinite = true) :
    (p.apply q).x.HasValue q.x.toRat ∧ (p.apply q).y.HasValue q.y.toRat := by
  obtain ⟨hsx, hsy, htx, hty⟩ := hasValue_of_isIdentity h
  constructor
  · exact (hasValue_unmoved hsx hasValue_zero htx hx hy).1
  · exact (hasValue_unmoved hsy hasValue_zero hty hy hx).2

theorem write_apply (h : p.isIdentity = true) (places : Nat) {q : Point Double}
    (hx : q.x.isFinite = true) (hy : q.y.isFinite = true) :
    (p.apply q).write places = q.write places := by
  obtain ⟨hx', hy'⟩ := hasValue_apply h hx hy
  unfold Point.write
  rw [text_eq_of_hasValue places hx' ⟨hx, rfl⟩, text_eq_of_hasValue places hy' ⟨hy, rfl⟩]

end Placement

/-- A path with finite coordinates is written as it would be if the identity were applied to it. So
every placement writes what its matrix gives, whether or not it is skipped. -/
theorem Path.write_eq_write_applied (places : Nat) {path : Path Double} (hfinite : path.AllFinite) :
    (∀ p : Placement Double, p.isIdentity = true →
      path.write places = (path.mapPoints p.apply).write places) ∧
    ∀ p : Placement Double, path.place p places = (path.mapPoints p.apply).write places := by
  have hidentity : ∀ p : Placement Double, p.isIdentity = true →
      path.write places = (path.mapPoints p.apply).write places := by
    intro p hp
    refine (write_mapPoints fun e he q hq => ?_).symm
    obtain ⟨hx, hy⟩ := hfinite e he q hq
    exact Placement.write_apply hp places hx hy
  refine ⟨hidentity, fun p => ?_⟩
  unfold Path.place
  split
  · next hp => exact hidentity p hp
  · rfl

/-- Zeros of both signs, the number nearest to zero and one near the end of the range, written with
more decimals than a coordinate is rounded to. The matrix turns negative zeros into positive ones,
and back where the shift is negative too. -/
theorem Path.write_eq_write_applied_zeros :
    let path : Path Double := [.moveTo ⟨-0.0, 5e-324⟩, .quadTo ⟨-0.0, -0.0⟩ ⟨0.1, -0.0⟩,
      .curveTo ⟨0.0, -0.0⟩ ⟨-0.001, 72.125⟩ ⟨-1.7e308, -0.0⟩, .close]
    let p : Placement Double := ⟨1.0, 1.0, -0.0, 0.0⟩
    path.AllFinite ∧ p.isIdentity = true ∧ path.mapPoints p.apply ≠ path ∧
      path.write 17 = (path.mapPoints p.apply).write 17 ∧
      path.place p 17 = (path.mapPoints p.apply).write 17 := by
  intro path p
  have hfinite : path.AllFinite := by decide +kernel
  have hp : p.isIdentity = true := by decide +kernel
  obtain ⟨hwrite, hplace⟩ := Path.write_eq_write_applied 17 hfinite
  exact ⟨hfinite, hp, by decide +kernel, hwrite p hp, hplace p⟩

end Ideograph
