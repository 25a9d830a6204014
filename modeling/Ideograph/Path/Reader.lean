import Ideograph.Path.Arc
import Ideograph.Text.Blank
import Ideograph.Text.Quoted

/-! # Reading path data

Path data is a sequence of commands: a letter and its arguments, or arguments alone, which repeat
the command before them. A capital letter takes its points as they are, a small one relative to
the current point. Reading ends where neither a letter nor the beginning of a number follows.
-/

namespace Ideograph

open Number

/-- Why path data cannot be read. -/
inductive ReadFault where
  | unexpectedEnd
  | notANumber
  | noInitialMove
  | unknownCommand (letter : Char)
  deriving DecidableEq, Repr

def ReadFault.message : ReadFault → String
  | unexpectedEnd => "Unexpected EOF"
  | notANumber => "Unable to parse a number"
  | noInitialMove => "Uninitialized path (missing moveto command)"
  | unknownCommand letter => "Unknown command, \"" ++ letter.toString ++ "\""

namespace Path

/-- What the commands so far leave for the next one. -/
structure Pen (α : Type) where
  /-- The command that bare arguments repeat. -/
  command : Option Char
  current : Point α
  /-- The first point of the current figure. -/
  start : Point α
  /-- The point that smooth curves reflect. -/
  control : Point α
  /-- The move that a closed figure owes to the next command. -/
  reopening : Option (Point α)
  isFirst : Bool

namespace Pen

variable {α : Type} [Scalar α]

def initial : Pen α :=
  let origin : Point α := ⟨0.0, 0.0⟩
  ⟨none, origin, origin, origin, none, true⟩

/-- Go on from `p` after `command`, with the control point `control`. -/
def advance (pen : Pen α) (command : Char) (control p : Point α) : Pen α :=
  { pen with
    command := some command, current := p, control := control, reopening := none,
    isFirst := false }

/-- The control point reflected in the current point. -/
def reflected (pen : Pen α) : Point α :=
  ⟨2.0 * pen.current.x - pen.control.x, 2.0 * pen.current.y - pen.control.y⟩

end Pen

/-- A reader of part of the data, which leaves the rest. -/
abbrev Reader := StateT (List Char) (Except ReadFault)

namespace Reader

/-- The blanks of path data. -/
def isSpace (c : Char) : Bool :=
  c == ' ' || c == '\t' || c == '\n' || c == '\x0c' || c == '\r'

def skipSpace (cs : List Char) : List Char :=
  cs.dropWhile isSpace

/-- Skip blanks and at most one comma. -/
def skipComma (cs : List Char) : List Char :=
  match skipSpace cs with
  | ',' :: rest => rest
  | rest => rest

def comma : Reader Unit :=
  modify skipComma

variable {α : Type} [Scalar α]

def number : Reader α := do
  let cs := skipSpace (← get)
  if cs.isEmpty then throw .unexpectedEnd
  match Decimal.take cs with
  | some (d, rest) =>
    set rest
    return Scalar.ofDecimal d
  | none => throw .notANumber

/-- A number and the comma that may follow it. -/
def argument : Reader α := do
  let x : α ← number
  comma
  return x

def pair : Reader (Point α) := do
  let x ← argument
  let y ← argument
  return ⟨x, y⟩

def flag : Reader Bool := do
  match skipSpace (← get) with
  | [] => throw .unexpectedEnd
  | '0' :: rest =>
    set rest
    return false
  | '1' :: rest =>
    set rest
    return true
  | _ => throw .notANumber

/-- A point, counted from the current one after a small letter. -/
def point (pen : Pen α) (command : Char) : Reader (Point α) := do
  let p : Point α ← pair
  if command.isLower then return ⟨pen.current.x + p.x, pen.current.y + p.y⟩
  else return p

/-- One coordinate, counted from that of the current point after a small letter. -/
def coordinate (origin : α) (command : Char) : Reader α := do
  let x : α ← argument
  if command.isLower then return x + origin else return x

def arc (pen : Pen α) (command : Char) : Reader (Path α × Point α) := do
  let radii : Point α ← pair
  let rotation : α ← argument
  let large ← flag
  comma
  let sweep ← flag
  comma
  let p ← point pen command
  let arc : EndpointArc :=
    { start := pen.current.map Scalar.toDouble
      stop := p.map Scalar.toDouble
      radii := radii.map Scalar.toDouble
      rotation := Double.radiansOfDegrees (Scalar.toDouble rotation)
      large := large
      sweep := sweep }
  let drawn : Path α :=
    if arc.isLine then [.lineTo p]
    else Path.mapPoints (Point.map Scalar.ofDouble) arc.toCenter.curves
  return (drawn, p)

/-- Read the arguments of a command other than a move and draw it. -/
def draw (pen : Pen α) (command : Char) : Reader (Path α × Pen α) := do
  match command.toUpper with
  | 'L' =>
    let p ← point pen command
    return ([.lineTo p], pen.advance command p p)
  | 'H' =>
    let x ← coordinate pen.current.x command
    let p : Point α := ⟨x, pen.current.y⟩
    return ([.lineTo p], pen.advance command p p)
  | 'V' =>
    let y ← coordinate pen.current.y command
    let p : Point α := ⟨pen.current.x, y⟩
    return ([.lineTo p], pen.advance command p p)
  | 'Q' =>
    let c ← point pen command
    let p ← point pen command
    return ([.quadTo c p], pen.advance command c p)
  | 'T' =>
    let p ← point pen command
    return ([.quadTo pen.reflected p], pen.advance command pen.reflected p)
  | 'C' =>
    let c₁ ← point pen command
    let c₂ ← point pen command
    let p ← point pen command
    return ([.curveTo c₁ c₂ p], pen.advance command c₂ p)
  | 'S' =>
    let c₂ ← point pen command
    let p ← point pen command
    return ([.curveTo pen.reflected c₂ p], pen.advance command c₂ p)
  | 'A' =>
    let (drawn, p) ← arc pen command
    return (drawn, pen.advance command p p)
  | 'Z' =>
    return ([.close], { pen with current := pen.start, reopening := some pen.start })
  | _ => throw (.unknownCommand command)

/-- Read the arguments of a command and draw it.

A figure begins with a move; after a closing, the move to its start is drawn where none is
written. Bare arguments after a move are lines. -/
def segment (pen : Pen α) (command : Char) : Reader (Path α × Pen α) := do
  if command.toUpper = 'M' then
    let p ← point pen command
    let next := if command.isLower then 'l' else 'L'
    return ([.moveTo p], { pen.advance next p p with start := p })
  else if pen.isFirst then throw .noInitialMove
  else
    let reopening := pen.reopening.toList.map Element.moveTo
    let (drawn, pen) ← draw { pen with reopening := none } command
    return (reopening ++ drawn, pen)

/-- Whether a character may begin arguments without a command of their own. -/
def beginsArgument (c : Char) : Bool :=
  c == '-' || c == '.' || c.isDigit

/-- The next command, and the data after its letter. -/
def nextCommand (last : Option Char) (cs : List Char) : Option (Char × List Char) :=
  match skipSpace cs with
  | [] => none
  | c :: rest =>
    if c.isAlpha then some (c, rest)
    else if beginsArgument c then last.map (·, c :: rest)
    else none

/-- Read at most `count` commands. -/
def segments : Nat → Pen α → List Char → Except ReadFault (Path α)
  | 0, _, _ => return []
  | count + 1, pen, cs =>
    match nextCommand pen.command cs with
    | none => return []
    | some (command, rest) => do
      let ((drawn, pen), rest) ← (segment pen command).run rest
      return drawn ++ (← segments count pen rest)

end Reader

/-- Why a text is not path data, with the text; or a report in words of its own. -/
inductive Fault where
  | unreadable (fault : ReadFault) (data : String)
  | reported (text : String)
  deriving DecidableEq, Repr

def Fault.message : Fault → String
  | unreadable fault data =>
    "invalid path data: " ++ fault.message ++ " in " ++ Text.quoted data
  | reported text => "invalid path data: " ++ text

variable {α : Type} [Scalar α]

/-- Read path data. A blank text is an empty path.

Every command takes at least one character, so the length of the text bounds their number. -/
def read (data : String) : Except Fault (Path α) :=
  let cs := data.toList
  if cs.all Text.isBlank then .ok []
  else (Reader.segments cs.length Pen.initial cs).mapError (Fault.unreadable · data)

end Path

end Ideograph
