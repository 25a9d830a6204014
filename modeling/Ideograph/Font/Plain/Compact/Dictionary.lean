import Ideograph.Font.Plain.Compact.Integer
import Ideograph.Number.Decimal

/-! # Dictionaries

A dictionary is a row of operands and operators, each operator after its operands. An operand is
an integer or a real number. A real number is decimal text with one character in every half
byte, up to a half byte of ones.
-/

namespace Ideograph.Font.Plain.Dictionary

open Number

/-- The place after a real number. -/
def realEnd (table : Chunk) : Nat → Nat → Nat
  | 0, i => i
  | steps + 1, i =>
    match table.byte? i with
    | none => i
    | some b => if b / 16 = 15 ∨ b % 16 = 15 then i + 1 else realEnd table steps (i + 1)

/-- What a half byte of a real number stands for. -/
def realText? (half : Nat) : Option (List Char) :=
  if half < 10 then some [Char.ofNat (48 + half)]
  else
    match half with
    | 10 => some ['.']
    | 11 => some ['E']
    | 12 => some ['E', '-']
    | 14 => some ['-']
    | _ => none

/-- The longest text of a real number. -/
def maxRealLength : Nat := 64

/-- The real number in the bytes up to its end. -/
def realValue? (bytes : List Nat) : Option Double := do
  let halves := (bytes.flatMap fun b => [b / 16, b % 16]).takeWhile (· != 15)
  let text := (← halves.mapM realText?).flatten
  guard (text.length ≤ maxRealLength)
  Binary.ofText? (String.ofList text)

/-- Read an operand after its first byte: its value, unless it is a real number with a text that
is no number, and the place after it. -/
def operand? (table : Chunk) (first i : Nat) : Option (Option Double × Nat) := do
  if first = 29 then return (some (Binary.ofInt (signedLong (← table.long? i))), i + 4)
  else if first = 30 then
    let j := realEnd table (table.size - i) i
    return (realValue? (← table.slice? i (j - i)).toList, j)
  else
    let (n, i) ← compactInteger? table first i
    return (some (Binary.ofInt n), i)

def isOperator (b : Nat) : Bool :=
  b < 28 || b == 31 || b == 255

/-- The operators with their operands, up to what cannot be read. An operator that begins with
twelve has two bytes. -/
def entries (table : Chunk) : Nat → List (Option Double) → Nat → List (Nat × List (Option Double))
  | 0, _, _ => []
  | steps + 1, operands, i =>
    match table.byte? i with
    | none => []
    | some 12 =>
      match table.byte? (i + 1) with
      | none => []
      | some b => (1200 + b, operands) :: entries table steps [] (i + 2)
    | some b =>
      if isOperator b then (b, operands) :: entries table steps [] (i + 1)
      else
        match operand? table b (i + 1) with
        | none => []
        | some (operand, i) => entries table steps (operands ++ [operand]) i

/-- The last place that an operand can name. -/
def maxPlace : Nat := 2147483647

/-- The place that an operand names: its integer part, unless that is negative. -/
def place? : Double → Option Nat
  | .nan => none
  | .infinite negative => if negative then none else some maxPlace
  | x@(.finite ..) =>
    let n := truncate x.toRat
    if 0 ≤ n then some (min n.toNat maxPlace) else none

/-- The operator for the place of the charstrings. -/
def charstringsOperator : Nat := 17

/-- Where the charstrings are. Every entry about them must be a place, and the last one counts. -/
def charstringsStart? (table : Chunk) : Option Nat := do
  let found := (entries table table.size [] 0).filter (·.1 == charstringsOperator)
  let starts ← found.mapM fun entry =>
    match entry.2 with
    | [some x] => place? x
    | _ => none
  let start ← starts.getLast?
  guard (start != 0)
  return start

end Ideograph.Font.Plain.Dictionary
