import Ideograph.Font.Plain.Compact.Integer
import Ideograph.Font.Plain.Sketch

/-! # Charstrings

A charstring is a row of numbers and commands. The numbers before a command are its operands:
ways from point to point, which move the pen, or draw lines and cubic curves.

These are a part of the commands that there are. Hints and their masks, calls of shared routines
and returns from them, rows of curves and lines mixed, flexes and arithmetic are unknown here, and
a charstring is given up at the first of them.
-/

namespace Ideograph.Font.Plain.Charstring

open Number

inductive Command where
  | moveTo
  | horizontalMoveTo
  | verticalMoveTo
  | lineTo
  | horizontalLineTo
  | verticalLineTo
  | curveTo
  /-- Curves that begin and end horizontally. -/
  | horizontalCurveTo
  /-- Curves that begin and end vertically. -/
  | verticalCurveTo
  /-- Curves that begin along one axis and end along the other, in turn, the first of them
  horizontally. -/
  | horizontalCornerTo
  /-- The same with the first of them vertically. -/
  | verticalCornerTo
  | finish
  deriving DecidableEq, Repr

def Command.ofByte? : Nat → Option Command
  | 21 => some moveTo
  | 22 => some horizontalMoveTo
  | 4 => some verticalMoveTo
  | 5 => some lineTo
  | 6 => some horizontalLineTo
  | 7 => some verticalLineTo
  | 8 => some curveTo
  | 27 => some horizontalCurveTo
  | 26 => some verticalCurveTo
  | 31 => some horizontalCornerTo
  | 30 => some verticalCornerTo
  | 14 => some finish
  | _ => none

inductive Token where
  | number (x : Single)
  | command (c : Command)
  /-- Bytes that are neither. -/
  | unknown

/-- Read one token after its first byte, and find the place after it. A number of four more bytes
has half of its bits after the point. -/
def token? (code : Chunk) (first i : Nat) : Option (Token × Nat) := do
  if first = 255 then
    return (.number (.ofInt (signedLong (← code.long? i)) / .ofInt 65536), i + 4)
  else if first = 28 ∨ 32 ≤ first then
    let (n, i) ← compactInteger? code first i
    return (.number (.ofInt n), i)
  else return (.command (← Command.ofByte? first), i)

/-- The tokens of a charstring, up to the first that is unknown. -/
def tokens (code : Chunk) : Nat → Nat → List Token
  | 0, _ => []
  | steps + 1, i =>
    match code.byte? i with
    | none => []
    | some first =>
      match token? code first (i + 1) with
      | none => [.unknown]
      | some (token, i) => token :: tokens code steps i

/-- What a command does with the pen, by the ways from each point to the next. -/
inductive Stroke where
  /-- Go on without drawing. -/
  | skip (d : Point Single)
  | line (d : Point Single)
  | curve (d₁ d₂ d₃ : Point Single)

def horizontal (d : Single) : Point Single := ⟨d, .ofInt 0⟩

def vertical (d : Single) : Point Single := ⟨.ofInt 0, d⟩

/-- Lines to any point. -/
def lines? : List Single → Option (List Stroke)
  | [] => some []
  | [_] => none
  | dx :: dy :: rest => do
    return .line ⟨dx, dy⟩ :: (← lines? rest)

/-- Lines along the axes in turn. -/
def axisLines (isHorizontal : Bool) : List Single → List Stroke
  | [] => []
  | d :: rest =>
    .line (if isHorizontal then horizontal d else vertical d) :: axisLines (!isHorizontal) rest

/-- Curves with any points. -/
def curves? : List Single → Option (List Stroke)
  | [] => some []
  | x₁ :: y₁ :: x₂ :: y₂ :: x₃ :: y₃ :: rest => do
    return .curve ⟨x₁, y₁⟩ ⟨x₂, y₂⟩ ⟨x₃, y₃⟩ :: (← curves? rest)
  | _ => none

/-- Curves that begin and end along one axis. -/
def axisCurves? (isHorizontal : Bool) : List Single → Option (List Stroke)
  | [] => some []
  | d₁ :: x₂ :: y₂ :: d₃ :: rest => do
    let along := if isHorizontal then horizontal else vertical
    return .curve (along d₁) ⟨x₂, y₂⟩ (along d₃) :: (← axisCurves? isHorizontal rest)
  | _ => none

/-- The same, where the first of an odd number of operands is a way across the axis. -/
def axisCurvesAside? (isHorizontal : Bool) (operands : List Single) : Option (List Stroke) := do
  match operands with
  | aside :: rest =>
    if rest.length % 2 = 0 then
      let across := if isHorizontal then vertical else horizontal
      return .skip (across aside) :: (← axisCurves? isHorizontal rest)
    else axisCurves? isHorizontal operands
  | [] => return []

/-- A curve that begins along one axis and ends along the other, or `aside` of it. -/
def corner (isHorizontal : Bool) (d₁ x₂ y₂ d₃ aside : Single) : Stroke :=
  if isHorizontal then .curve (horizontal d₁) ⟨x₂, y₂⟩ ⟨aside, d₃⟩
  else .curve (vertical d₁) ⟨x₂, y₂⟩ ⟨d₃, aside⟩

/-- Corners that begin along the axes in turn, and whether no operand is left over. The last of
them may end aside. -/
def corners (isHorizontal : Bool) : List Single → List Stroke × Bool
  | [d₁, x₂, y₂, d₃] => ([corner isHorizontal d₁ x₂ y₂ d₃ (.ofInt 0)], true)
  | [d₁, x₂, y₂, d₃, aside] => ([corner isHorizontal d₁ x₂ y₂ d₃ aside], true)
  | d₁ :: x₂ :: y₂ :: d₃ :: rest =>
    let (strokes, exact) := corners (!isHorizontal) rest
    (corner isHorizontal d₁ x₂ y₂ d₃ (.ofInt 0) :: strokes, exact)
  | _ => ([], false)

/-- All strokes or none. -/
def allOrNone (strokes : Option (List Stroke)) : List Stroke × Bool :=
  (strokes.getD [], strokes.isSome)

/-- The strokes of a command that draws, and whether its operands were right. -/
def Command.strokes (operands : List Single) : Command → List Stroke × Bool
  | lineTo => allOrNone (lines? operands)
  | horizontalLineTo => (axisLines true operands, !operands.isEmpty)
  | verticalLineTo => (axisLines false operands, !operands.isEmpty)
  | curveTo => allOrNone (curves? operands)
  | horizontalCurveTo => allOrNone (axisCurvesAside? true operands)
  | verticalCurveTo => allOrNone (axisCurvesAside? false operands)
  | horizontalCornerTo => corners true operands
  | verticalCornerTo => corners false operands
  | moveTo | horizontalMoveTo | verticalMoveTo | finish => ([], false)

/-- The way of a command that moves, if its operands are right. -/
def Command.way? (operands : List Single) : Command → Option (Point Single)
  | moveTo =>
    match operands with
    | [dx, dy] => some ⟨dx, dy⟩
    | _ => none
  | horizontalMoveTo =>
    match operands with
    | [dx] => some (horizontal dx)
    | _ => none
  | verticalMoveTo =>
    match operands with
    | [dy] => some (vertical dy)
    | _ => none
  | _ => none

def Command.moves : Command → Bool
  | moveTo | horizontalMoveTo | verticalMoveTo => true
  | _ => false

def step (p d : Point Single) : Point Single :=
  ⟨p.x + d.x, p.y + d.y⟩

/-- Make strokes one after the other, and find where the pen is then. -/
def follow (p : Point Single) : List Stroke → Path Single × Point Single
  | [] => ([], p)
  | .skip d :: rest => follow (step p d) rest
  | .line d :: rest =>
    let q := step p d
    let (path, last) := follow q rest
    (.lineTo q :: path, last)
  | .curve d₁ d₂ d₃ :: rest =>
    let c₁ := step p d₁
    let c₂ := step c₁ d₂
    let q := step c₂ d₃
    let (path, last) := follow q rest
    (.curveTo c₁ c₂ q :: path, last)

/-- The most operands before a command. -/
def maxOperands : Nat := 48

structure Pen where
  position : Point Single
  /-- A contour has begun. -/
  isDown : Bool
  /-- The width of the glyph was given, before the operands of a move. -/
  hasWidth : Bool
  operands : List Single

namespace Pen

def initial : Pen :=
  ⟨⟨.ofInt 0, .ofInt 0⟩, false, false, []⟩

/-- Begin a contour, and close the one before it. The width of the glyph may come first among the
operands. -/
def move? (pen : Pen) (c : Command) : Option (Path Single × Pen) := do
  let plain := (c.way? pen.operands).map (·, false)
  let (way, width) ← plain <|> (c.way? (pen.operands.drop 1)).map (·, true)
  let position := step pen.position way
  let closing := if pen.isDown then [.close] else []
  return (closing ++ [.moveTo position], ⟨position, true, pen.hasWidth || width, []⟩)

/-- Draw strokes, which is possible once a contour has begun. -/
def draw? (pen : Pen) (strokes : List Stroke) : Option (Path Single × Pen) :=
  if pen.isDown then
    let (path, position) := follow pen.position strokes
    some (path, { pen with position, operands := [] })
  else none

/-- Close the contour at the end of a glyph. With four operands behind the width the glyph would
be composed of two others, which is not supported. -/
def finish? (pen : Pen) : Option (Path Single) :=
  let count := pen.operands.length
  if count = 4 ∨ count = 5 ∧ !pen.hasWidth then none
  else some (if pen.isDown then [.close] else [])

end Pen

/-- Draw a charstring. It must end with the command that finishes it. -/
def draw : Pen → List Token → Sketch
  | _, [] | _, .unknown :: _ => .failed
  | pen, .number x :: rest =>
    if pen.operands.length < maxOperands then
      draw { pen with operands := pen.operands ++ [x] } rest
    else .failed
  | pen, .command c :: rest =>
    if c = .finish then
      match pen.finish? with
      | none => .failed
      | some path => ⟨path, rest.isEmpty⟩
    else
      let (strokes, exact) := c.strokes pen.operands
      match if c.moves then pen.move? c else pen.draw? strokes with
      | none => .failed
      | some (path, pen) =>
        if c.moves || exact then
          let sketch := draw pen rest
          ⟨path ++ sketch.path, sketch.complete⟩
        else ⟨path, false⟩

end Ideograph.Font.Plain.Charstring
