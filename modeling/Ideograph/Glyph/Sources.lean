import Ideograph.Glyph

/-! # Glyph sources without a font

Glyphs that are all squares, and glyphs given by path data.
-/

namespace Ideograph.GlyphSource

open Number

variable {α : Type} [Scalar α]

/-- The outline of the box of a font size. -/
def square (side : α) : Path α :=
  [.moveTo ⟨0.0, 0.0⟩, .lineTo ⟨side, 0.0⟩, .lineTo ⟨side, side⟩, .lineTo ⟨0.0, side⟩, .close]

/-- Every character is a square, apart from those that are missing. -/
def squares (missing : List Char) (ascender unitsPerEm : α) : GlyphSource α :=
  fun c fontSize =>
    if missing.contains c then .error (.unsupported c)
    else .ok ⟨square fontSize, ascender, unitsPerEm⟩

/-- Characters with path data in units of the font. -/
def drawn (glyphs : List (Char × String)) (ascender unitsPerEm : α) : GlyphSource α :=
  fun c fontSize =>
    match glyphs.lookup c with
    | none => .error (.unsupported c)
    | some data => do
      let path ← (Path.read data).mapError .path
      let k := fontSize / unitsPerEm
      return ⟨path.mapPoints (Point.map (· * k)), ascender, unitsPerEm⟩

end Ideograph.GlyphSource
