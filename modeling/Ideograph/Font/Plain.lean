import Ideograph.Font.Parser
import Ideograph.Font.Plain.CharMap
import Ideograph.Font.Plain.Compact
import Ideograph.Font.Plain.Container
import Ideograph.Font.Plain.Metrics
import Ideograph.Font.Plain.TrueType

/-! # A parser for plain fonts

A parser for the fonts that most programs write: metrics, a character map, and quadratic or cubic
outlines. Without the header tables a file is not a font; without other tables there are no
characters or outlines.

It does not know all that a font may hold. Charstrings only move, draw lines or curves, and end. At
a hint, a call of a shared routine, a flex, or any other command a glyph is given up. Fonts with
variations are taken as they are without them.
-/

namespace Ideograph.Font.Plain

/-- The outlines of a font. -/
inductive Outlines where
  | none
  | quadratic (glyphs : TrueType)
  | cubic (glyphs : Compact)

def Outlines.sketch : Outlines → Nat → Sketch
  | none, _ => .failed
  | quadratic glyphs, glyph => glyphs.sketch glyph
  | cubic glyphs, glyph => glyphs.sketch glyph

/-- The tables that a font file is made of. -/
structure Tables where
  unitsPerEm : Nat
  ascender : Int
  charMap : Option CharMap
  outlines : Outlines

/-- Read the tables of a font file. Quadratic outlines have precedence. -/
def Tables.read (bytes : ByteArray) : Except Fault Tables := do
  let file := Chunk.ofBytes bytes
  let entries ← directory file
  let table (tag : String) : Option Chunk := findTable file entries tag
  let head ← ((table "head").bind Head.read?).elim (.error .noHead) .ok
  let horizontal ←
    ((table "hhea").bind horizontalAscender?).elim (.error .noHorizontalHeader) .ok
  let count ← ((table "maxp").bind glyphCount?).elim (.error .noProfile) .ok
  let quadratic := do
    return Outlines.quadratic
      (.ofTables (← table "glyf") (← table "loca") head.hasLongLocations count)
  let cubic := do
    return Outlines.cubic (← Compact.read? (← table "CFF "))
  return {
    unitsPerEm := head.unitsPerEm
    ascender := Plain.ascender horizontal ((table "OS/2").bind WindowsMetrics.read?)
    charMap := (table "cmap").bind CharMap.read?
    outlines := (quadratic <|> cubic).getD .none }

/-- What is found in the tables. -/
def Tables.parsed (t : Tables) : Parsed where
  unitsPerEm := .ofNat t.unitsPerEm
  ascender := .ofInt t.ascender
  glyph? c := (t.charMap.bind (·.glyph? c)).map .ofNat
  emission glyph :=
    let sketch := t.outlines.sketch glyph.toNat
    ⟨sketch.path, sketch.isOutline⟩

def parse : Parser := fun bytes =>
  match Tables.read bytes with
  | .error e => .error e.reason
  | .ok tables => .ok tables.parsed

end Ideograph.Font.Plain
