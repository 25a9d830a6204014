import Ideograph.Path.Basic

/-! # Font parsers

A font file is taken apart by a parser, which is taken as it is given. All that drawing needs of
what the parser finds are two metrics, the glyph of each character, and the outline of each glyph.
-/

namespace Ideograph.Font

open Number

/-- What a parser gives of one glyph: the movements that it hands over, in units of the font, and
whether it says in the end that the glyph has an outline. -/
structure Emission where
  path : Path Single
  isOutline : Bool
  deriving DecidableEq

/-- A font as its parser knows it. -/
structure Parsed where
  unitsPerEm : UInt16
  ascender : Int16
  glyph? : Char → Option UInt16
  emission : UInt16 → Emission

/-- A way to take font files apart. It says in words why a file is not a font. -/
abbrev Parser := ByteArray → Except String Parsed

end Ideograph.Font
