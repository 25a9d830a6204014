import Ideograph.Font.Plain.Chunk

/-! # Global metrics

The size of the em square, the format of glyph locations and the height of the ascender line.
-/

namespace Ideograph.Font.Plain

/-- What the header table says. -/
structure Head where
  unitsPerEm : Nat
  hasLongLocations : Bool

def Head.read? (table : Chunk) : Option Head := do
  guard (54 ≤ table.size)
  let unitsPerEm ← table.word? 18
  guard (16 ≤ unitsPerEm && unitsPerEm ≤ 16384)
  match ← table.word? 50 with
  | 0 => return ⟨unitsPerEm, false⟩
  | 1 => return ⟨unitsPerEm, true⟩
  | _ => none

/-- The ascender of the horizontal header. -/
def horizontalAscender? (table : Chunk) : Option Int := do
  guard (36 ≤ table.size)
  return signedWord (← table.word? 4)

/-- The number of glyphs, which is not zero. -/
def glyphCount? (table : Chunk) : Option Nat := do
  let version ← table.long? 0
  guard (version == 0x00005000 || version == 0x00010000)
  let count ← table.word? 4
  guard (count != 0)
  return count

/-- The ascenders of the table of metrics for Windows. -/
structure WindowsMetrics where
  prefersTypographic : Bool
  typographicAscender : Int
  windowsAscender : Int

def WindowsMetrics.read? (table : Chunk) : Option WindowsMetrics := do
  let version ← table.word? 0
  let size ← match version with
    | 0 => some 78
    | 1 => some 86
    | 2 | 3 | 4 => some 96
    | 5 => some 100
    | _ => none
  guard (size ≤ table.size)
  let selection ← table.word? 62
  return {
    prefersTypographic := 4 ≤ version && (selection / 128) % 2 == 1
    typographicAscender := signedWord (← table.word? 68)
    windowsAscender := signedWord (← table.word? 74) }

/-- The ascender of a font: the typographic one where it is preferred, or else the first of the
three that is not zero. -/
def ascender (horizontal : Int) (windows : Option WindowsMetrics) : Int :=
  match windows with
  | none => horizontal
  | some w =>
    if w.prefersTypographic then w.typographicAscender
    else if horizontal ≠ 0 then horizontal
    else if w.typographicAscender ≠ 0 then w.typographicAscender
    else w.windowsAscender

end Ideograph.Font.Plain
