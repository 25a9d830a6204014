import Ideograph.Font.Plain.Compact.Charstring
import Ideograph.Font.Plain.Compact.Dictionary
import Ideograph.Font.Plain.Compact.Index

/-! # Cubic outlines

The compact format is a header and a row of indexes: the names, the top dictionaries, the texts
and the shared routines. The first top dictionary says where the index of charstrings lies.

Only the charstrings are kept. Shared routines are passed over, and the names and encodings of
glyphs, the dictionaries of subfonts and the private dictionaries are not read, so faults in them
go unnoticed.
-/

namespace Ideograph.Font.Plain

/-- The charstring of each glyph. -/
structure Compact where
  charstrings : Index

namespace Compact

def read? (table : Chunk) : Option Compact := do
  guard ((← table.byte? 0) == 1)
  let headerSize ← table.byte? 2
  let (_, i) ← Index.read? table (max 4 headerSize)
  let (dictionaries, i) ← Index.read? table i
  let start ← Dictionary.charstringsStart? (← dictionaries.get? 0)
  let (_, i) ← Index.read? table i
  let _ ← Index.read? table i
  let (charstrings, _) ← Index.read? table start
  guard (charstrings.count != 0)
  return ⟨charstrings⟩

/-- Draw a glyph by its number. -/
def sketch (c : Compact) (glyph : Nat) : Sketch :=
  match c.charstrings.get? glyph with
  | none => .failed
  | some code => Charstring.draw Charstring.Pen.initial (Charstring.tokens code code.size 0)

end Compact

end Ideograph.Font.Plain
