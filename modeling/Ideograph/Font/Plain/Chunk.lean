/-! # Stretches of a font file

A stretch of bytes, whose numbers are written with the most significant byte first. Reading past
its end gives nothing.
-/

namespace Ideograph.Font.Plain

/-- The bytes of a file from `start` on, `size` of them. -/
structure Chunk where
  bytes : ByteArray
  start : Nat
  size : Nat

namespace Chunk

def ofBytes (bytes : ByteArray) : Chunk :=
  ⟨bytes, 0, bytes.size⟩

def byte? (c : Chunk) (i : Nat) : Option Nat :=
  if i < c.size then
    if h : c.start + i < c.bytes.size then some (c.bytes.get (c.start + i) h).toNat else none
  else none

def word? (c : Chunk) (i : Nat) : Option Nat := do
  return 256 * (← c.byte? i) + (← c.byte? (i + 1))

def long? (c : Chunk) (i : Nat) : Option Nat := do
  return 65536 * (← c.word? i) + (← c.word? (i + 2))

/-- A number of `width` bytes. -/
def number? (c : Chunk) (width i : Nat) : Option Nat :=
  (List.range width).foldlM (fun n k => return 256 * n + (← c.byte? (i + k))) 0

/-- A part of a chunk. -/
def slice? (c : Chunk) (start size : Nat) : Option Chunk :=
  if start + size ≤ c.size then some ⟨c.bytes, c.start + start, size⟩ else none

/-- What remains of a chunk from `start` on. -/
def drop? (c : Chunk) (start : Nat) : Option Chunk :=
  c.slice? start (c.size - start)

def toList (c : Chunk) : List Nat :=
  (List.range c.size).filterMap c.byte?

end Chunk

/-- Read two bytes as a number with a sign. -/
def signedWord (n : Nat) : Int :=
  if n < 32768 then n else (n : Int) - 65536

/-- Read one byte as a number with a sign. -/
def signedByte (n : Nat) : Int :=
  if n < 128 then n else (n : Int) - 256

/-- Read four bytes as a number with a sign. -/
def signedLong (n : Nat) : Int :=
  if n < 2147483648 then n else (n : Int) - 4294967296

/-- The number of two bytes with a sign that agrees with `n` up to a multiple of 65536. -/
def wrapWord (n : Int) : Int :=
  signedWord (n % 65536).toNat

end Ideograph.Font.Plain
