import Ideograph.Font.Plain.Chunk

/-! # Indexes

An index is a row of objects of any size: their number, the width of an offset, an offset to each
object and to the end, and the objects. Offsets count from one.
-/

namespace Ideograph.Font.Plain

structure Index where
  count : Nat
  width : Nat
  offsets : Chunk
  objects : Chunk

namespace Index

def empty : Index :=
  ⟨0, 1, .ofBytes .empty, .ofBytes .empty⟩

/-- Read the index at a place, and find the place after it. If the last offset is zero, there are
no objects. -/
def read? (table : Chunk) (i : Nat) : Option (Index × Nat) := do
  let count ← table.word? i
  if count = 0 then return (empty, i + 2)
  else
    let width ← table.byte? (i + 2)
    guard (1 ≤ width && width ≤ 4)
    let offsets ← table.slice? (i + 3) (width * (count + 1))
    let start := i + 3 + width * (count + 1)
    match ← offsets.number? width (width * count) with
    | 0 => return (empty, start)
    | size + 1 => return (⟨count, width, offsets, ← table.slice? start size⟩, start + size)

/-- The object with a number. -/
def get? (x : Index) (k : Nat) : Option Chunk := do
  guard (k < x.count)
  let first ← x.offsets.number? x.width (x.width * k)
  let next ← x.offsets.number? x.width (x.width * (k + 1))
  guard (1 ≤ first && first ≤ next)
  x.objects.slice? (first - 1) (next - first)

end Index

end Ideograph.Font.Plain
