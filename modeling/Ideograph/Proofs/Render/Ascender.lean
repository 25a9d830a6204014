import Ideograph.Glyph.Sources
import Ideograph.Proofs.Font.Reading
import Ideograph.Proofs.Render.Drift

/-! # Where the ascender line of a glyph is drawn

A glyph is turned over, and its baseline is put as far above the lower edge of the box as its
ascender exceeds the em. So the line that lies one em less the ascender above the baseline is drawn
on the lower edge. The ascender line itself is drawn on the upper edge only if the ascender is one
em.
-/

namespace Ideograph

open Number Font

namespace Glyph

variable {g : Glyph Rat} {fontSize : Rat}

theorem baseline_rat (g : Glyph Rat) (fontSize : Rat) :
    g.baseline fontSize = 2 * fontSize - g.ascender * (fontSize / g.unitsPerEm) := by
  change fontSize - (g.ascender * (fontSize / g.unitsPerEm) + -fontSize) = _
  ring

/-- A point at a height in units of the font is drawn as far below the upper edge as two ems exceed
its height and the ascender. -/
theorem placement_apply_height (hunits : g.unitsPerEm ≠ 0) (x height : Rat) :
    (g.placement fontSize).apply ⟨x, height * (fontSize / g.unitsPerEm)⟩ =
      ⟨x, (2 * g.unitsPerEm - g.ascender - height) * (fontSize / g.unitsPerEm)⟩ := by
  rw [placement_apply, baseline_rat]
  congr 1
  field_simp

/-- A point is drawn at its distance from the ascender line exactly if the ascender is one em. -/
theorem placement_apply_height_eq_iff (hsize : fontSize ≠ 0) (hunits : g.unitsPerEm ≠ 0)
    (x height : Rat) :
    ((g.placement fontSize).apply ⟨x, height * (fontSize / g.unitsPerEm)⟩).y =
      (g.ascender - height) * (fontSize / g.unitsPerEm) ↔ g.ascender = g.unitsPerEm := by
  rw [placement_apply_height hunits, mul_left_inj' (div_ne_zero hsize hunits)]
  constructor
  · intro h
    linarith
  · intro h
    linarith

/-- What an outline that was given in units of the font becomes when it is turned over. -/
theorem mapPoints_placement_apply (hunits : g.unitsPerEm ≠ 0) {α : Type} (f : α → Rat)
    (design : Path α) :
    (design.mapPoints (Point.map fun x => f x * (fontSize / g.unitsPerEm))).mapPoints
        (g.placement fontSize).apply =
      design.mapPoints fun p => ⟨f p.x * (fontSize / g.unitsPerEm),
        (2 * g.unitsPerEm - g.ascender - f p.y) * (fontSize / g.unitsPerEm)⟩ := by
  rw [Path.mapPoints_comp]
  congr 1
  funext p
  exact placement_apply_height hunits _ _

end Glyph

/-- In exact arithmetic the glyph of a character has the metrics of its font, and the coordinates
that the parser hands over, scaled. -/
theorem Font.Face.source_rat {parse : Parser} {f : Face parse} {c : Char} {glyph : UInt16}
    (hglyph : f.glyph? c = some glyph) (fontSize : Rat) :
    f.source c fontSize = .ok
      ⟨(f.parsed.emission glyph).path.mapPoints
          (Point.map fun x => (x.convert : Double).toRat * (fontSize / f.unitsPerEm.toNat)),
        f.ascender.toInt, f.unitsPerEm.toNat⟩ := by
  have hunits := (hasValue_unitsPerEm f.unitsPerEm).2
  have hascender := (hasValue_ascender f.ascender).2
  rw [source_eq hglyph, ← hascender, ← hunits]
  rfl

namespace Renderer

/-- A leaf without a variant is its glyph, turned over: a point at a height in units of the font is
drawn as far below the upper edge as two ems exceed its height and the ascender. So it is drawn at
its distance from the ascender line exactly if the ascender is one em, and only then the ascender
line is drawn on the upper edge; the line that lies one em less the ascender above the baseline is
always drawn on the lower edge. The glyphs of a font have its metrics and its coordinates. -/
theorem leaf_ascender_line (r : Renderer Rat) {fontSize : Rat} (hsize : 0 < fontSize)
    {position : Option Position} {c : Char} {g : Glyph Rat}
    (hvariant : position.bind (r.parts.variant? · c) = none)
    (hsource : r.source c fontSize = .ok g) (hunits : 0 < g.unitsPerEm) :
    let unit := fontSize / g.unitsPerEm
    let drawn := (g.placement fontSize).apply
    (r.leaf fontSize position c).outcome = .ok [(g.path.mapPoints drawn).write drawingPlaces] ∧
    (∀ x height, drawn ⟨x, height * unit⟩ =
      ⟨x, (2 * g.unitsPerEm - g.ascender - height) * unit⟩) ∧
    (∀ x height, (drawn ⟨x, height * unit⟩).y = (g.ascender - height) * unit ↔
      g.ascender = g.unitsPerEm) ∧
    (∀ x, (drawn ⟨x, g.ascender * unit⟩).y = 0 ↔ g.ascender = g.unitsPerEm) ∧
    (∀ x, (drawn ⟨x, (g.unitsPerEm - g.ascender) * unit⟩).y = fontSize) ∧
    ∀ (parse : Parser) (f : Face parse) (glyph : UInt16), r.source = f.source →
      f.glyph? c = some glyph →
      g.ascender = f.ascender.toInt ∧ g.unitsPerEm = f.unitsPerEm.toNat ∧
      g.path.mapPoints drawn = (f.parsed.emission glyph).path.mapPoints fun p =>
        ⟨(p.x.convert : Double).toRat * unit,
          (2 * g.unitsPerEm - g.ascender - (p.y.convert : Double).toRat) * unit⟩ := by
  intro unit drawn
  have hdrawn : ∀ x height, drawn ⟨x, height * unit⟩ =
      ⟨x, (2 * g.unitsPerEm - g.ascender - height) * unit⟩ :=
    Glyph.placement_apply_height hunits.ne'
  have hdistance : ∀ x height, (drawn ⟨x, height * unit⟩).y = (g.ascender - height) * unit ↔
      g.ascender = g.unitsPerEm :=
    Glyph.placement_apply_height_eq_iff hsize.ne' hunits.ne'
  refine ⟨?_, hdrawn, hdistance, fun x => ?_, fun x => ?_,
    fun parse f glyph hface hglyph => ?_⟩
  · have hturned : drawn = fun p => ⟨p.x, g.baseline fontSize - p.y⟩ :=
      funext (Glyph.placement_apply g fontSize)
    rw [outcome_leaf, leafOutline, hvariant, hsource, hturned]
    rfl
  · have htop := hdistance x g.ascender
    rwa [sub_self, zero_mul] at htop
  · rw [hdrawn]
    calc (2 * g.unitsPerEm - g.ascender - (g.unitsPerEm - g.ascender)) * unit
        = g.unitsPerEm * unit := by ring
      _ = fontSize := mul_div_cancel₀ _ hunits.ne'
  · have hglyphs := hsource.symm.trans ((congrFun₂ hface c fontSize).trans
      (Face.source_rat hglyph fontSize))
    cases hglyphs
    exact ⟨rfl, rfl, Glyph.mapPoints_placement_apply hunits.ne' _ _⟩

/-- A font whose ascender is one em. Its ascender line is drawn on the upper edge. -/
theorem leaf_ascender_line_em :
    -- the ascender of this font is 900, and 1000 with another second byte
    let font := brokenFont.set! 113 232
    ∃ f, Face.read Plain.parse font = .ok f ∧ f.glyph? '口' = some 1 ∧
      let r : Renderer Rat := { source := f.source }
      (r.leaf 100 none '口').outcome = .ok ["M0 100L10 100L10 90L0 100Z"] ∧
      ∃ g, r.source '口' 100 = .ok g ∧ 0 < g.unitsPerEm ∧
        ∀ x, ((g.placement 100).apply ⟨x, g.ascender * (100 / g.unitsPerEm)⟩).y = 0 := by
  intro font
  obtain ⟨f, hread, hfont⟩ := exists_of_toOption_any (t := Face.read Plain.parse font)
    (p := fun f =>
      let r : Renderer Rat := { source := f.source }
      decide (f.glyph? '口' = some 1 ∧ f.unitsPerEm = 1000 ∧ f.ascender = 1000 ∧
        (r.leaf 100 none '口').outcome = .ok ["M0 100L10 100L10 90L0 100Z"])) (by decide +kernel)
  obtain ⟨hglyph, hunits, hascender, hout⟩ := of_decide_eq_true hfont
  have hsource := Face.source_rat hglyph 100
  rw [hunits, hascender] at hsource
  have hvariant : (none : Option Position).bind (Parts.builtin.variant? · '口') = none := rfl
  have hpos : (0 : Rat) < (1000 : UInt16).toNat := by decide
  obtain ⟨-, -, -, htop, -⟩ := leaf_ascender_line { source := f.source } (by norm_num) hvariant
    hsource hpos
  exact ⟨f, hread, hglyph, hout, _, hsource, hpos, fun x => (htop x).mpr rfl⟩

/-- A square that reaches from the baseline up to an ascender of nine tenths of the em. Its upper
side is drawn below the upper edge of the box, and its lower side below the lower edge. -/
theorem leaf_ascender_line_missed :
    let data := "M0 0L1000 0L1000 900L0 900Z"
    let r : Renderer Rat := { source := .drawn [('口', data)] 900.0 1000.0 }
    let r' : Renderer Double := { source := .drawn [('口', data)] 900.0 1000.0 }
    (r.leaf 100 none '口').outcome = .ok ["M0 110L100 110L100 20L0 20Z"] ∧
    (r'.leaf 100.0 none '口').outcome = .ok ["M0 110L100 110L100 20L0 20Z"] ∧
    ∃ g, r.source '口' 100 = .ok g ∧ 0 < g.unitsPerEm ∧ g.ascender = 900 ∧
      ((g.placement 100).apply ⟨0, g.ascender * 100 / g.unitsPerEm⟩).y = 20 ∧
      ¬ ∀ height, ((g.placement 100).apply ⟨0, height * 100 / g.unitsPerEm⟩).y =
        (g.ascender - height) * 100 / g.unitsPerEm := by
  refine ⟨by decide +kernel, by decide +kernel, ⟨_, 900.0, 1000.0⟩, rfl, by norm_num, by norm_num,
    by decide +kernel, fun h => ?_⟩
  exact absurd (h 0) (by decide +kernel)

end Renderer

end Ideograph
