import Ideograph.Font.Plain.Chunk

/-! # Integers of one to three bytes

The first byte of an integer says how many bytes it has.
-/

namespace Ideograph.Font.Plain

/-- Read an integer after its first byte, and find the place after it. -/
def compactInteger? (table : Chunk) (first i : Nat) : Option (Int × Nat) := do
  if first = 28 then return (signedWord (← table.word? i), i + 2)
  else if first < 32 ∨ 254 < first then none
  else if first ≤ 246 then return ((first : Int) - 139, i)
  else
    let second ← table.byte? i
    if first ≤ 250 then return (((first - 247) * 256 + second + 108 : Nat), i + 1)
    else return (-((first - 251) * 256 + second + 108 : Nat), i + 1)

end Ideograph.Font.Plain
