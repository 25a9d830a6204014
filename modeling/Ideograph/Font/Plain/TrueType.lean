import Ideograph.Font.Plain.Sketch
import Ideograph.Font.Plain.TrueType.Component
import Ideograph.Font.Plain.TrueType.Simple

/-! # Quadratic outlines

A table of locations says where each glyph begins. A glyph is simple, or composed of other
glyphs up to a number of levels, or empty.
-/

namespace Ideograph.Font.Plain

open Number

/-- The glyphs of a font and their locations, of which the first `count` are used. -/
structure TrueType where
  glyphs : Chunk
  locations : Chunk
  hasLongLocations : Bool
  count : Nat

namespace TrueType

/-- There is one location more than glyphs, as far as the table reaches. -/
def ofTables (glyphs locations : Chunk) (hasLongLocations : Bool) (glyphCount : Nat) :
    TrueType where
  glyphs
  locations
  hasLongLocations
  count :=
    let stored := locations.size / (if hasLongLocations then 4 else 2)
    min (if glyphCount = 65535 then glyphCount else glyphCount + 1) (stored % 65536)

/-- A location. Short ones count pairs of bytes. -/
def location? (t : TrueType) (i : Nat) : Option Nat :=
  if t.hasLongLocations then t.locations.long? (4 * i)
  else (t.locations.word? (2 * i)).map (2 * ·)

/-- The data of a glyph, which reaches up to the next location. -/
def data? (t : TrueType) (glyph : Nat) : Option Chunk := do
  guard (glyph + 1 < t.count)
  let first ← t.location? glyph
  let next ← t.location? (glyph + 1)
  guard (first < next)
  t.glyphs.slice? first (next - first)

/-- How deep glyphs are composed. -/
def maxLevels : Nat := 32

/-- Draw a glyph moved by `m`. It begins with the number of contours, which is negative for a
composite glyph, and a bounding box. -/
def draw (t : TrueType) : Nat → Affine → Chunk → Sketch
  | 0, _, _ => .failed
  | levels + 1, m, data =>
    match data.word? 0, data.drop? 10 with
    | none, _ => .failed
    | some 0, _ => ⟨[], true⟩
    | some _, none => .failed
    | some n, some body =>
      let contours := signedWord n
      if 0 < contours then
        match Simple.knots? body contours.toNat with
        | none => .failed
        | some knots => ⟨(Tracer.idle.trace knots).mapPoints m.apply, true⟩
      else
        Sketch.sequence (fun c => (t.data? c.glyph).map (draw t levels (m.compose c.map)))
          (Component.readAll body body.size 0)

/-- Draw a glyph by its number. -/
def sketch (t : TrueType) (glyph : Nat) : Sketch :=
  match t.data? glyph with
  | none => .failed
  | some data => t.draw maxLevels .identity data

end TrueType

end Ideograph.Font.Plain
