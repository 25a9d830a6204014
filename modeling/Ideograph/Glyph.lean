import Ideograph.Error
import Ideograph.Path.Placement

/-! # Glyphs

A glyph is an outline with the vertical axis pointing up, and the metrics of its font. Drawings
have the axis pointing down, so an outline is turned over and moved onto its baseline, which is the
lower edge of the box if the ascender is one em.
-/

namespace Ideograph

open Number

structure Glyph (α : Type) where
  path : Path α
  ascender : α
  unitsPerEm : α
  deriving DecidableEq, Repr

/-- Where the glyph of a character comes from, scaled to a font size. -/
abbrev GlyphSource (α : Type) := Char → α → Except RenderError (Glyph α)

namespace Glyph

variable {α : Type} [Scalar α]

/-- The height of the baseline below the top of the box. -/
def baseline (g : Glyph α) (fontSize : α) : α :=
  fontSize - Scalar.fusedMulAdd g.ascender (fontSize / g.unitsPerEm) (-fontSize)

/-- The placement that turns an outline over onto its baseline. -/
def placement (g : Glyph α) (fontSize : α) : Placement α :=
  ⟨1.0, -1.0, 0.0, g.baseline fontSize⟩

end Glyph

end Ideograph
