import Ideograph.Font.Plain.Chunk

/-! # The tables of a font file

A file holds one face or a collection, whose first face is used. A face begins with a directory
that says where each table lies.
-/

namespace Ideograph.Font.Plain

/-- Why a file is not a font. -/
inductive Fault where
  | unknownMagic
  | malformed
  | noFace
  | noHead
  | noHorizontalHeader
  | noProfile
  deriving DecidableEq, Repr

def Fault.reason : Fault → String
  | unknownMagic => "unknown magic"
  | malformed => "malformed font"
  | noFace => "face index is out of bounds"
  | noHead => "the head table is missing or malformed"
  | noHorizontalHeader => "the hhea table is missing or malformed"
  | noProfile => "the maxp table is missing or malformed"

inductive Magic where
  | face
  | collection
  deriving DecidableEq, Repr

def Magic.ofNat? (n : Nat) : Option Magic :=
  if n = 0x00010000 ∨ n = 0x74727565 ∨ n = 0x4F54544F then some face
  else if n = 0x74746366 then some collection
  else none

/-- The number that the four characters of a tag denote. -/
def tagNumber (tag : String) : Nat :=
  tag.toList.foldl (fun n c => 256 * n + c.toNat) 0

/-- Where a face has its directory: after the magic number of the face. -/
def directoryStart (file : Chunk) : Except Fault Nat := do
  let magicAt (i : Nat) : Except Fault Magic :=
    ((file.long? i).bind Magic.ofNat?).elim (.error .unknownMagic) .ok
  match ← magicAt 0 with
  | .face => return 4
  | .collection =>
    let faces ← (file.long? 8).elim (.error .malformed) .ok
    let headerEnd := 12 + 4 * faces
    if file.size < headerEnd then throw .malformed
    if faces = 0 then throw .noFace
    let start ← (file.long? 12).elim (.error .malformed) .ok
    if start < headerEnd ∨ file.size < start then throw .malformed
    match ← magicAt start with
    | .face => return start + 4
    | .collection => throw .unknownMagic

/-- The entries of a directory: the tag, place and size of each table. -/
def directory (file : Chunk) : Except Fault (List (Nat × Nat × Nat)) := do
  let start ← directoryStart file
  let count ← (file.word? start).elim (.error .malformed) .ok
  match file.slice? (start + 8) (16 * count) with
  | none => throw .malformed
  | some records =>
    return (List.range count).filterMap fun i => do
      return (← records.long? (16 * i), ← records.long? (16 * i + 8),
        ← records.long? (16 * i + 12))

/-- Find a table, unless it reaches past the end of the file. Of several entries the last one
counts. -/
def findTable (file : Chunk) (entries : List (Nat × Nat × Nat)) (tag : String) :
    Option Chunk :=
  (entries.reverse.find? (·.1 == tagNumber tag)).bind fun (_, start, size) =>
    file.slice? start size

end Ideograph.Font.Plain
