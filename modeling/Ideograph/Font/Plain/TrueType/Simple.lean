import Ideograph.Font.Plain.Chunk
import Ideograph.Font.Plain.TrueType.Contour

/-! # Simple glyphs

A simple glyph stores where its contours end, a flag for each point, and the way from each point
to the next along both axes.
-/

namespace Ideograph.Font.Plain.Simple

open Number

/-- The bits of a flag. -/
structure Flag where
  onCurve : Bool
  shortX : Bool
  shortY : Bool
  repeats : Bool
  sameX : Bool
  sameY : Bool

def Flag.ofByte (n : Nat) : Flag :=
  ⟨n.testBit 0, n.testBit 1, n.testBit 2, n.testBit 3, n.testBit 4, n.testBit 5⟩

/-- Read the flags of the points that are left, where `flag` stands for `again` more of them. -/
def flags? (table : Chunk) : Nat → Nat → Flag → Nat → Option (List Flag × Nat)
  | 0, 0, _, i => some ([], i)
  | 0, _ + 1, _, _ => none
  | left + 1, again + 1, flag, i => do
    let (flags, i) ← flags? table left again flag i
    return (flag :: flags, i)
  | left + 1, 0, _, i => do
    let flag := Flag.ofByte (← table.byte? i)
    let again ← if flag.repeats then table.byte? (i + 1) else some 0
    let (flags, i) ← flags? table left again flag (if flag.repeats then i + 2 else i + 1)
    return (flag :: flags, i)

/-- Read the way to the next point along one axis. A short one has a sign by its second bit; of
a long one that bit says that there is none. -/
def step? (table : Chunk) (short same : Bool) (i : Nat) : Option (Int × Nat) :=
  if short then do
    let size : Nat ← table.byte? i
    return (if same then size else -size, i + 1)
  else if same then some (0, i)
  else do
    return (signedWord (← table.word? i), i + 2)

/-- Read the positions along one axis. They wrap around at two bytes. -/
def positions? (table : Chunk) : List (Bool × Bool) → Int → Nat → Option (List Int × Nat)
  | [], _, i => some ([], i)
  | (short, same) :: axes, previous, i => do
    let (step, i) ← step? table short same i
    let position := wrapWord (previous + step)
    let (positions, i) ← positions? table axes position i
    return (position :: positions, i)

/-- Mark the last point of each contour, when `left` points come before the next mark and the
contours after it have the given numbers of points before theirs. -/
def endMarks : List Nat → Nat → Nat → List Bool
  | _, _, 0 => []
  | gaps, left + 1, points + 1 => false :: endMarks gaps left points
  | gap :: gaps, 0, points + 1 => true :: endMarks gaps gap points
  | [], 0, points + 1 => true :: endMarks [] 0 points

/-- The numbers of points before the last one of each contour but the first. -/
def gaps : List Nat → List Nat
  | a :: b :: rest => (b - a - 1) :: gaps (b :: rest)
  | _ => []

/-- Read the points of a glyph with the given number of contours. A glyph with one point has
none to draw. -/
def knots? (table : Chunk) (contours : Nat) : Option (List Knot) := do
  let ends ← (List.range contours).mapM fun k => table.word? (2 * k)
  let first ← ends.head?
  let last ← ends.getLast?
  guard (last != 65535)
  if last = 0 then return []
  else
    let points := last + 1
    let start := 2 * contours + 2 + (← table.word? (2 * contours))
    let (flags, i) ← flags? table points 0 (Flag.ofByte 0) start
    let (xs, i) ← positions? table (flags.map fun f => (f.shortX, f.sameX)) 0 i
    let (ys, _) ← positions? table (flags.map fun f => (f.shortY, f.sameY)) 0 i
    let placed := (xs.zip ys).map fun (x, y) => (⟨.ofInt x, .ofInt y⟩ : Point Single)
    return (placed.zip (flags.zip (endMarks (gaps ends) first points))).map
      fun (point, flag, mark) => ⟨point, flag.onCurve, mark⟩

end Ideograph.Font.Plain.Simple
