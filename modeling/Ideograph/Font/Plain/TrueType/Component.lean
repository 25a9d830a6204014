import Ideograph.Font.Plain.Chunk
import Ideograph.Path.Basic

/-! # Components

A composite glyph is a list of other glyphs, each moved by an affine map.
-/

namespace Ideograph.Font.Plain

open Number

/-- The map with `x ↦ xx * x + yx * y + dx` and `y ↦ xy * x + yy * y + dy`. -/
structure Affine where
  xx : Single
  xy : Single
  yx : Single
  yy : Single
  dx : Single
  dy : Single

namespace Affine

def identity : Affine :=
  ⟨.ofInt 1, .ofInt 0, .ofInt 0, .ofInt 1, .ofInt 0, .ofInt 0⟩

def apply (m : Affine) (p : Point Single) : Point Single :=
  ⟨m.xx * p.x + m.yx * p.y + m.dx, m.xy * p.x + m.yy * p.y + m.dy⟩

/-- First `n`, then `m`. -/
def compose (m n : Affine) : Affine where
  xx := m.xx * n.xx + m.yx * n.xy
  xy := m.xy * n.xx + m.yy * n.xy
  yx := m.xx * n.yx + m.yx * n.yy
  yy := m.xy * n.yx + m.yy * n.yy
  dx := m.xx * n.dx + m.yx * n.dy + m.dx
  dy := m.xy * n.dx + m.yy * n.dy + m.dy

end Affine

/-- A glyph by its number, and where it goes. -/
structure Component where
  glyph : Nat
  map : Affine

namespace Component

/-- A number of two bytes with fourteen bits after the point. -/
def fraction? (table : Chunk) (i : Nat) : Option Single := do
  return .ofInt (signedWord (← table.word? i)) / .ofInt 16384

/-- Read an offset, if there is one, of two words or two bytes. -/
def offset? (table : Chunk) (flags i : Nat) : Option (Single × Single × Nat) := do
  if !flags.testBit 1 then return (.ofInt 0, .ofInt 0, i)
  else if flags.testBit 0 then
    return (.ofInt (signedWord (← table.word? i)), .ofInt (signedWord (← table.word? (i + 2))),
      i + 4)
  else
    return (.ofInt (signedByte (← table.byte? i)), .ofInt (signedByte (← table.byte? (i + 1))),
      i + 2)

/-- Read the linear part of a map, of four, two or one entries, or none. -/
def linear? (table : Chunk) (flags i : Nat) (dx dy : Single) : Option (Affine × Nat) := do
  let zero : Single := .ofInt 0
  if flags.testBit 7 then
    return (⟨← fraction? table i, ← fraction? table (i + 2), ← fraction? table (i + 4),
      ← fraction? table (i + 6), dx, dy⟩, i + 8)
  else if flags.testBit 6 then
    return (⟨← fraction? table i, zero, zero, ← fraction? table (i + 2), dx, dy⟩, i + 4)
  else if flags.testBit 3 then
    let scale ← fraction? table i
    return (⟨scale, zero, zero, scale, dx, dy⟩, i + 2)
  else return (⟨.ofInt 1, zero, zero, .ofInt 1, dx, dy⟩, i)

/-- Read one component, whether another one follows, and where. -/
def read? (table : Chunk) (i : Nat) : Option (Component × Bool × Nat) := do
  let flags ← table.word? i
  let glyph ← table.word? (i + 2)
  let (dx, dy, i) ← offset? table flags (i + 4)
  let (map, i) ← linear? table flags i dx dy
  return (⟨glyph, map⟩, flags.testBit 5, i)

/-- Read components up to the last, or to one that cannot be read. -/
def readAll (table : Chunk) : Nat → Nat → List Component
  | 0, _ => []
  | steps + 1, i =>
    match read? table i with
    | none => []
    | some (component, more, i) =>
      component :: if more then readAll table steps i else []

end Component

end Ideograph.Font.Plain
