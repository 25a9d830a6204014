import Ideograph.Layout
import Ideograph.Proofs.Number.Exact

/-! # Slots inside the box

In exact arithmetic every slot of every operator is a part of the box, so what lies in the box is
moved to where it lies in the box again. This stays so when every coordinate is rounded on the way,
for the box with the rounded side.
-/

namespace Ideograph

open Number

/-- An offset and an extent that cover a part of a side: with fractions of the side for both, the
part begins and ends inside. -/
def Stretch (side offset extent : Rat) : Prop :=
  ∃ a, offset = a * side ∧ 0 ≤ a ∧ 0 ≤ extent ∧ a + extent ≤ 1

/-- A coordinate that lies in the rounded side lies there again after it was moved into a part of
the side and rounded. Rounding the side may have lengthened it, so the bound is the rounded side and
not the side itself. -/
theorem Stretch.roundTo_mem {side offset extent x : Rat} (h : Stretch side offset extent)
    (hside : 0 ≤ side) {places : Nat} (hplaces : places ≤ Scalar.maxPlaces)
    (hx : 0 ≤ x ∧ x ≤ Scalar.roundTo places side) :
    0 ≤ Scalar.roundTo places (extent * x + offset) ∧
      Scalar.roundTo places (extent * x + offset) ≤ Scalar.roundTo places side := by
  obtain ⟨a, rfl, ha, hextent, hle⟩ := h
  obtain ⟨hlow, hhigh⟩ := hx
  have hpow : (0 : Rat) < 10 ^ places := by positivity
  rw [roundTo_rat hplaces] at hhigh ⊢
  rw [roundTo_rat hplaces]
  set n := nearestAway (side * 10 ^ places)
  have hn : (0 : Rat) ≤ n := by exact_mod_cast nearestAway_nonneg (by positivity)
  have hside' : side * 10 ^ places < n + 1 / 2 := lt_nearestAway_add (by positivity)
  have hx' : x * 10 ^ places ≤ n := (le_div_iff₀ hpow).mp hhigh
  have hnonneg : 0 ≤ (extent * x + a * side) * 10 ^ places := by positivity
  -- A part with an offset stays strictly below half a place over the bound; one without is scaled.
  have hoffset : a * (side * 10 ^ places) < a * n + 1 / 2 := by
    rcases ha.eq_or_lt with rfl | hpos
    · norm_num
    · calc a * (side * 10 ^ places) < a * (n + 1 / 2) := by gcongr
        _ ≤ a * n + 1 / 2 := by linarith
  have hlt : (extent * x + a * side) * 10 ^ places < n + 1 / 2 :=
    calc (extent * x + a * side) * 10 ^ places
        = extent * (x * 10 ^ places) + a * (side * 10 ^ places) := by ring
      _ < extent * n + (a * n + 1 / 2) := add_lt_add_of_le_of_lt (by gcongr) hoffset
      _ = (a + extent) * n + 1 / 2 := by ring
      _ ≤ 1 * n + 1 / 2 := by gcongr
      _ = n + 1 / 2 := by ring
  refine ⟨div_nonneg (by exact_mod_cast nearestAway_nonneg hnonneg) hpow.le, ?_⟩
  gcongr
  exact nearestAway_le_of_lt hnonneg hlt

namespace Stretch

variable {side : Rat}

/-- A part that begins with the side. -/
theorem of_start {extent : Rat} (h : 0 ≤ extent) (hle : extent ≤ 1) : Stretch side 0.0 extent :=
  ⟨0, by norm_num, le_rfl, h, by rwa [zero_add]⟩

theorem full : Stretch side 0.0 1.0 :=
  of_start (by norm_num) (by norm_num)

end Stretch

/-- A slot that is a part of the box along both axes. -/
structure Slot.Inside (side : Rat) (slot : Slot Rat) : Prop where
  x : Stretch side slot.offsetX slot.scaleX
  y : Stretch side slot.offsetY slot.scaleY

variable {side : Rat}

theorem Slot.inside_full : (Slot.full : Slot Rat).Inside side :=
  ⟨.full, .full⟩

theorem Slot.inside_along {offset extent : Rat} (h : Stretch side offset extent) (axis : Axis)
    (position : Option Position) : (Slot.along axis offset extent position).Inside side := by
  cases axis with
  | horizontal => exact ⟨h, .full⟩
  | vertical => exact ⟨.full, h⟩

/-- Whichever parts are small, both stretches of a split lie in the side. -/
theorem Layout.stretch_stretches (axis : Axis) (first second : Option Char) (side : Rat)
    (parts : Parts) :
    Stretch side (stretches axis first second side parts).1.1
      (stretches axis first second side parts).1.2 ∧
    Stretch side (stretches axis first second side parts).2.1
      (stretches axis first second side parts).2.2 := by
  have hnarrow : Stretch side 0.0 axis.narrow := by
    cases axis <;> exact .of_start (by norm_num [Axis.narrow]) (by norm_num [Axis.narrow])
  have htwoThirds : Stretch side 0.0 (2.0 / 3.0) := .of_start (by norm_num) (by norm_num)
  have hfromThird : Stretch side (side / 3.0) (2.0 / 3.0) :=
    ⟨1 / 3, by norm_num; ring, by norm_num, by norm_num, by norm_num⟩
  rw [stretches]
  split
  · split
    · exact ⟨htwoThirds, hfromThird⟩
    · exact ⟨hnarrow, hfromThird⟩
  · split
    · exact ⟨htwoThirds, hfromThird⟩
    · exact ⟨htwoThirds, 2 / 3, by norm_num; ring, by norm_num, by norm_num, by norm_num⟩
  · exact ⟨.of_start (by norm_num) (by norm_num),
      1 / 2, by norm_num; ring, by norm_num, by norm_num, by norm_num⟩

/-- A rule keeps its operands in the box if what it nests stays there. -/
theorem Layout.inside_of_mem_slots (rule : Rule Rat) (first second : Option Char) (parts : Parts)
    (hnest : ∀ dx dy, rule = .nest dx dy → 0 ≤ dx ∧ dx ≤ 0.35 ∧ 0 ≤ dy ∧ dy ≤ 0.35) :
    ∀ slot ∈ slots rule first second side parts, slot.Inside side := by
  cases rule with
  | split axis =>
    obtain ⟨hfirst, hsecond⟩ := stretch_stretches axis first second side parts
    simpa [slots] using ⟨Slot.inside_along hfirst _ _, Slot.inside_along hsecond _ _⟩
  | thirds axis =>
    have hthird : ∀ i : Rat, 0 ≤ i → i ≤ 2 → Stretch side (side * i / 3.0) (1.0 / 3.0) :=
      fun i hi hle => ⟨i / 3, by norm_num; ring, by positivity, by norm_num, by linarith⟩
    simp only [slots, List.map_cons, List.map_nil, List.forall_mem_cons]
    exact ⟨Slot.inside_along (hthird _ (by norm_num) (by norm_num)) _ _,
      Slot.inside_along (hthird _ (by norm_num) (by norm_num)) _ _,
      Slot.inside_along (hthird _ (by norm_num) (by norm_num)) _ _, by simp⟩
  | nest dx dy =>
    obtain ⟨hdx, hdx', hdy, hdy'⟩ := hnest dx dy rfl
    have hinner : Slot.Inside side ⟨dx * side, dy * side, 0.65, 0.65, none⟩ :=
      ⟨⟨dx, rfl, hdx, by norm_num, by linarith⟩, ⟨dy, rfl, hdy, by norm_num, by linarith⟩⟩
    simpa [slots] using ⟨Slot.inside_full, hinner⟩
  | overlay =>
    have hfull : (Slot.full : Slot Rat).Inside side := Slot.inside_full
    simpa [slots] using hfull

theorem Operator.inside_of_mem_slots (op : Operator) (first second : Option Char) (parts : Parts) :
    ∀ slot ∈ op.slots first second side parts, slot.Inside side := by
  refine Layout.inside_of_mem_slots op.rule first second parts fun dx dy h => ?_
  cases op <;> cases h <;> norm_num

end Ideograph
