import Ideograph.Glyph.Sources
import Ideograph.Proofs.Render.Exact

/-! # Nothing is drawn outside the box

In exact arithmetic a drawing stays in the box if its leaves do, however deep they are nested. The
box is that of the rounded font size, since a side that is rounded up may be reached.
-/

namespace Ideograph

open Number

/-- A point of the box from the origin to the given side. -/
def Point.InBox (side : Rat) (p : Point Rat) : Prop :=
  (0 ≤ p.x ∧ p.x ≤ side) ∧ 0 ≤ p.y ∧ p.y ≤ side

instance Point.instDecidableInBox (side : Rat) (p : Point Rat) : Decidable (p.InBox side) :=
  inferInstanceAs (Decidable (_ ∧ _))

/-- Path data all of whose points lie in the box, control points included. -/
def Path.InBox (side : Rat) (data : String) : Prop :=
  Path.ForallPoints (Point.InBox side) data

instance Path.instDecidableInBox (side : Rat) (data : String) : Decidable (Path.InBox side data) :=
  inferInstanceAs (Decidable (Path.ForallPoints _ _))

section Slots

variable {fontSize : Rat}

/-- A slot inside the box moves the points of the rounded box to points of it. -/
theorem Slot.Inside.inBox_rounded {slot : Slot Rat} (h : slot.Inside fontSize)
    (hsize : 0 ≤ fontSize) {p : Point Rat}
    (hp : p.InBox (Scalar.roundTo drawingPlaces fontSize)) :
    (slot.placement.apply p).rounded.InBox (Scalar.roundTo drawingPlaces fontSize) := by
  rw [Placement.apply_rat]
  exact ⟨h.x.roundTo_mem hsize drawingPlaces_le hp.1, h.y.roundTo_mem hsize drawingPlaces_le hp.2⟩

theorem Slot.inBox_carryRounded {slots : List (Slot Rat)}
    (h : ∀ slot ∈ slots, slot.Inside fontSize) (hsize : 0 ≤ fontSize) {p : Point Rat}
    (hp : p.InBox (Scalar.roundTo drawingPlaces fontSize)) :
    (carryRounded slots p).InBox (Scalar.roundTo drawingPlaces fontSize) := by
  induction slots generalizing p with
  | nil => exact hp
  | cons slot slots ih =>
    simp only [List.mem_cons, forall_eq_or_imp] at h
    exact ih h.2 (h.1.inBox_rounded hsize hp)

end Slots

namespace Renderer

variable {r : Renderer Rat} {fontSize : Rat}

/-- The fragment of a leaf in the box stays there in the slots around the leaf. -/
theorem DrawsSite.inBox {site : Site Rat} {text : String} (h : r.DrawsSite fontSize site text)
    (hsize : 0 ≤ fontSize) (hslots : ∀ slot ∈ site.slots, slot.Inside fontSize)
    (hleaf : ∀ data, (r.leaf fontSize site.position site.char).outcome = .ok [data] →
      Path.InBox (Scalar.roundTo drawingPlaces fontSize) data) :
    Path.InBox (Scalar.roundTo drawingPlaces fontSize) text := by
  obtain ⟨data, hdata, hread⟩ := h.exists_read
  intro path htext e he p hp
  rw [htext] at hread
  obtain ⟨start, hstart, rfl⟩ := map_eq_ok_iff.mp hread.symm
  obtain ⟨e, he', rfl⟩ := List.mem_map.mp he
  rw [Element.points_map] at hp
  obtain ⟨q, hq, rfl⟩ := List.mem_map.mp hp
  exact Slot.inBox_carryRounded hslots hsize (hleaf data hdata start hstart e he' q hq)

/-- Where all leaves are drawn in the box of the rounded font size, all that is drawn of an
expression lies in this box, whatever its operators are and however deep they nest. An expression
within the limit whose leaves can be drawn is drawn, as path data. -/
theorem render_inBox (r : Renderer Rat) {fontSize : Rat} (hsize : 0 ≤ fontSize) (e : Expr)
    (hleaves : ∀ site ∈ r.sites fontSize e none, ∀ data,
      (r.leaf fontSize site.position site.char).outcome = .ok [data] →
      Path.InBox (Scalar.roundTo drawingPlaces fontSize) data) :
    (∀ fragments, (r.render fontSize e.tokens).outcome = .ok fragments →
      ∀ data ∈ fragments, Path.InBox (Scalar.roundTo drawingPlaces fontSize) data) ∧
    (e.height ≤ r.maxDepth → (∀ site ∈ r.sites fontSize e none, r.DrawsLeaf fontSize site) →
      ∃ fragments, (r.render fontSize e.tokens).outcome = .ok fragments ∧
        ∀ data ∈ fragments, Path.Readable data) := by
  rw [render_tokens]
  refine ⟨fun fragments hout data hdata => ?_, fun hheight hdraws => ?_⟩
  · obtain ⟨site, hsite, hdraws⟩ := exists_site hout hdata
    exact hdraws.inBox hsize (inside_of_mem_sites hsite) (hleaves site hsite)
  · exact exists_tree (Nat.lt_succ_of_le hheight) hdraws

/-- Squares of a side that is rounded up reach the rounded side, and nothing goes beyond it. -/
theorem render_inBox_roundedUp :
    let r : Renderer Rat := { source := .squares [] 1000.0 1000.0 }
    let square : Expr := .leaf '口' rfl
    let e : Expr := .ofOperands .leftToRight
      [square, .ofOperands .fullSurround [square, square] rfl] rfl
    0 ≤ (10.005 : Rat) ∧ Scalar.roundTo drawingPlaces (10.005 : Rat) = 10.01 ∧
      (∀ site ∈ r.sites 10.005 e none, ∀ data,
        (r.leaf 10.005 site.position site.char).outcome = .ok [data] →
        Path.InBox (Scalar.roundTo drawingPlaces 10.005) data) ∧
      e.height ≤ r.maxDepth ∧ (∀ site ∈ r.sites 10.005 e none, r.DrawsLeaf 10.005 site) ∧
      ∃ fragments, (r.render 10.005 e.tokens).outcome = .ok fragments ∧
        (∀ data ∈ fragments, Path.InBox (Scalar.roundTo drawingPlaces 10.005) data) ∧
        ∀ data ∈ fragments, Path.Readable data := by
  intro r square e
  have hsize : 0 ≤ (10.005 : Rat) := by norm_num
  have hleaf : ∀ site ∈ r.sites 10.005 e none,
      (r.leaf 10.005 site.position site.char).outcome =
        .ok ["M0 10.01L10.01 10.01L10.01 0L0 0Z"] := by decide +kernel
  have hread : (Path.read "M0 10.01L10.01 10.01L10.01 0L0 0Z" : Except Path.Fault (Path Rat)) =
      .ok [.moveTo ⟨0, 10.01⟩, .lineTo ⟨10.01, 10.01⟩, .lineTo ⟨10.01, 0⟩, .lineTo ⟨0, 0⟩,
        .close] := by
    decide +kernel
  have hbox : ∀ site ∈ r.sites 10.005 e none, ∀ data,
      (r.leaf 10.005 site.position site.char).outcome = .ok [data] →
      Path.InBox (Scalar.roundTo drawingPlaces 10.005) data := by
    intro site hsite data hdata
    rw [hleaf site hsite] at hdata
    obtain rfl := (List.cons.inj (Except.ok.inj hdata)).1
    decide +kernel
  have hdraws : ∀ site ∈ r.sites 10.005 e none, r.DrawsLeaf 10.005 site :=
    fun site hsite => ⟨_, hleaf site hsite, _, hread⟩
  have hheight : e.height ≤ r.maxDepth := by decide +kernel
  obtain ⟨hinside, hsuccess⟩ := render_inBox r hsize e hbox
  obtain ⟨fragments, hout, hreadable⟩ := hsuccess hheight hdraws
  exact ⟨hsize, by decide +kernel, hbox, hheight, hdraws, fragments, hout, hinside fragments hout,
    hreadable⟩

end Renderer

end Ideograph
