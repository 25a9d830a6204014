import Ideograph.Font.Plain.Chunk

/-! # From characters to glyphs

The character map of a font consists of subtables in several formats. The first subtable for
Unicode that knows a character gives its glyph. A subtable that cannot be read hides those after
it.
-/

namespace Ideograph.Font.Plain

/-- A run of consecutive characters and the number of its glyph. -/
structure Group where
  first : Nat
  last : Nat
  glyph : Nat
  deriving DecidableEq, Repr

/-- A subtable, by what its format stores. -/
inductive Mapping where
  /-- A glyph for each of 256 characters. -/
  | bytes (glyphs : Chunk)
  /-- Segments of the first plane, with a shift or an array of glyphs for each. -/
  | segments (table : Chunk) (count : Nat)
  /-- Glyphs of consecutive characters. -/
  | trimmed (first : Nat) (glyphs : Chunk)
  /-- Groups of characters with consecutive glyphs. -/
  | sequential (groups : Chunk) (count : Nat)
  /-- Groups of characters that share a glyph. -/
  | manyToOne (groups : Chunk) (count : Nat)
  /-- A format that maps no character by itself. -/
  | other

namespace Mapping

/-- Read a subtable. The one of format six ends with the first plane. -/
def read? (table : Chunk) : Option Mapping := do
  match ← table.word? 0 with
  | 0 => return .bytes (← table.slice? 6 256)
  | 4 =>
    let doubled ← table.word? 6
    guard (2 ≤ doubled)
    let count := doubled / 2
    let _ ← table.slice? 14 (8 * count + 2)
    return .segments table count
  | 6 =>
    let first ← table.word? 6
    let glyphs ← table.slice? 10 (2 * (← table.word? 8))
    return .trimmed first (← glyphs.slice? 0 (min glyphs.size (2 * (65536 - first))))
  | 8 => return .other
  | 10 => return .trimmed (← table.long? 12) (← table.slice? 20 (2 * (← table.long? 16)))
  | 12 =>
    let count ← table.long? 12
    return .sequential (← table.slice? 16 (12 * count)) count
  | 13 =>
    let count ← table.long? 12
    return .manyToOne (← table.slice? 16 (12 * count)) count
  | 14 =>
    let _ ← table.slice? 10 (11 * (← table.long? 6))
    return .other
  | _ => none

def group? (groups : Chunk) (i : Nat) : Option Group := do
  return ⟨← groups.long? (12 * i), ← groups.long? (12 * i + 4), ← groups.long? (12 * i + 8)⟩

/-- The glyph of a character in a segment: shifted, or looked up in the array behind the offsets,
where zero stands for none. Places are counted in sixteen bits. -/
def segmentGlyph? (table : Chunk) (count index start code : Nat) : Option Nat := do
  let offsets := 16 + 6 * count
  let offset ← table.word? (offsets + 2 * index)
  let shift := signedWord (← table.word? (16 + 4 * count + 2 * index))
  if offset = 0 then return (((code : Int) + shift) % 65536).toNat
  else
    guard (offset != 0xFFFF && 2 * (code - start) < 65536)
    let stored ← table.word? ((offsets + 2 * index + 2 * (code - start) + offset) % 65536)
    guard (stored != 0)
    let glyph := wrapWord (signedWord stored + shift)
    guard (0 ≤ glyph)
    return glyph.toNat

/-- Search the segments from `low` up to `high`, which are sorted by their last characters. -/
def searchSegments (table : Chunk) (count code : Nat) : Nat → Nat → Nat → Option Nat
  | 0, _, _ => none
  | steps + 1, low, high => do
    guard (low < high)
    let index := (low + high) / 2
    let last ← table.word? (14 + 2 * index)
    if last < code then searchSegments table count code steps (index + 1) high
    else
      let start ← table.word? (16 + 2 * count + 2 * index)
      if code < start then searchSegments table count code steps low index
      else segmentGlyph? table count index start code

/-- Narrow `size` groups from `base` on to the one that may hold a character. -/
def searchGroups (groups : Chunk) (code : Nat) : Nat → Nat → Nat → Option Group
  | 0, base, _ => group? groups base
  | steps + 1, base, size =>
    if size ≤ 1 then group? groups base
    else do
      let half := size / 2
      let g ← group? groups (base + half)
      searchGroups groups code steps (if code < g.first then base else base + half) (size - half)

/-- The glyph of a code point. -/
def glyph? (m : Mapping) (code : Nat) : Option Nat :=
  match m with
  | bytes glyphs => do
    let glyph ← glyphs.byte? code
    guard (glyph != 0)
    return glyph
  | segments table count => do
    guard (code < 65536)
    searchSegments table count code (count + 1) 0 count
  | trimmed first glyphs => do
    guard (first ≤ code)
    glyphs.word? (2 * (code - first))
  | sequential groups count => do
    guard (count != 0)
    let g ← searchGroups groups code count 0 count
    guard (g.first ≤ code && code ≤ g.last)
    guard (g.glyph + code < 4294967296)
    let glyph := g.glyph + code - g.first
    guard (glyph < 65536)
    return glyph
  | manyToOne groups count => do
    let g ← (List.range count).findSome? fun i => do
      let g ← group? groups i
      guard (g.first ≤ code && code ≤ g.last)
      return g
    guard (g.glyph < 65536)
    return g.glyph
  | other => none

/-- Whether a subtable is for Unicode: by its platform, or on Windows by its encoding, of which
the one for all planes needs a format that reaches them. -/
def isUnicode (m : Mapping) (platform encoding : Nat) : Bool :=
  platform == 0 ||
    platform == 3 && (encoding == 1 ||
      encoding == 10 && match m with
        | sequential .. | manyToOne .. => true
        | _ => false)

end Mapping

/-- The character map of a font: its table and the number of subtables. -/
structure CharMap where
  table : Chunk
  count : Nat

namespace CharMap

def read? (table : Chunk) : Option CharMap := do
  let count ← table.word? 2
  let _ ← table.slice? 4 (8 * count)
  return ⟨table, count⟩

/-- One subtable with its platform and encoding. -/
def subtable? (m : CharMap) (i : Nat) : Option (Nat × Nat × Mapping) := do
  let platform ← m.table.word? (4 + 8 * i)
  guard (platform ≤ 4)
  let encoding ← m.table.word? (4 + 8 * i + 2)
  let table ← m.table.drop? (← m.table.long? (4 + 8 * i + 4))
  return (platform, encoding, ← Mapping.read? table)

/-- Look a code point up in `left` subtables from `i` on. -/
def glyphFrom? (m : CharMap) (code : Nat) : Nat → Nat → Option Nat
  | 0, _ => none
  | left + 1, i => do
    let (platform, encoding, mapping) ← m.subtable? i
    let glyph := if mapping.isUnicode platform encoding then mapping.glyph? code else none
    glyph <|> glyphFrom? m code left (i + 1)

def glyph? (m : CharMap) (c : Char) : Option Nat :=
  m.glyphFrom? c.toNat m.count 0

end CharMap

end Ideograph.Font.Plain
