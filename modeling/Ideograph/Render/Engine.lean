import Ideograph.Glyph
import Ideograph.Parts.Builtin
import Ideograph.Render.Compose
import Ideograph.Traced

/-! # Drawing a sequence

A sequence is drawn in one pass over its tokens. A leaf is a variant or a glyph of its own. An
operator lays out its operands by looking ahead, draws each one from the tokens that the one
before it left, and composes them. Operators nest up to a limit.
-/

namespace Ideograph

open Number

/-- The font size when none is given. -/
def defaultFontSize {α : Type} [Scalar α] : α := 72.0

/-- The greatest number of operators around a token when none is given. -/
def defaultMaxDepth : Nat := 32

/-- The side of the square in which variants are drawn. -/
def variantSide {α : Type} [Scalar α] : α := 72.0

/-- What sequences are drawn with. -/
structure Renderer (α : Type) where
  source : GlyphSource α
  parts : Parts := .builtin
  /-- The greatest number of operators around a token. -/
  maxDepth : Nat := defaultMaxDepth

namespace Renderer

variable {α : Type} [Scalar α]

/-- Draw one character: its variant for the position, or else its glyph. -/
def leaf (r : Renderer α) (fontSize : α) (position : Option Position) (c : Char) :
    Traced (List String) :=
  match position.bind (r.parts.variant? · c) with
  | some data =>
    .lift ((Placement.scaled (fontSize / variantSide)).placeAll [data])
  | none => do
    let glyph ← Traced.request c (r.source c fontSize)
    return [glyph.path.place (glyph.placement fontSize) drawingPlaces]

/-- Draw one operand for each slot, from the tokens that the one before it left. -/
def operands (draw : Option Position → List Char → Traced (List String × List Char))
    (missing : Nat → RenderError) :
    Nat → List (Slot α) → List Char → Traced (List (Layer α) × List Char)
  | _, [], rest => return ([], rest)
  | found, _ :: _, [] => .fail (missing found)
  | found, slot :: slots, token :: rest => do
    let (fragments, rest) ← draw slot.position (token :: rest)
    let (layers, rest) ← operands draw missing (found + 1) slots rest
    return (⟨fragments, slot⟩ :: layers, rest)

/-- Draw the first expression inside at most `levels - 1` operators, and leave the rest. Errors
are reported at `total`, the number of all tokens. -/
def expression (r : Renderer α) (total : Nat) (fontSize : α) :
    Nat → Option Position → List Char → Traced (List String × List Char)
  | 0, _, _ => .fail (.tooDeep r.maxDepth)
  | _ + 1, _, [] => .fail (.malformed total .empty)
  | levels + 1, position, token :: rest =>
    match Operator.ofChar? token with
    | none => do
      return (← r.leaf fontSize position token, rest)
    | some op => do
      let missing found := .malformed total (.missingOperand token op.arity found)
      let (layers, rest) ←
        operands (expression r total fontSize levels) missing 0
          (op.layout rest fontSize r.parts) rest
      return (← Traced.lift (compose layers), rest)

/-- Draw the first expression of a sequence, and leave the rest. -/
def decompose (r : Renderer α) (fontSize : α) (position : Option Position)
    (tokens : List Char) : Traced (List String × List Char) :=
  r.expression tokens.length fontSize (r.maxDepth + 1) position tokens

/-- Draw a sequence that is one expression, a path data fragment for each leaf. -/
def render (r : Renderer α) (fontSize : α) (tokens : List Char) : Traced (List String) :=
  match tokens with
  | [] => .fail (.malformed 0 .empty)
  | _ :: _ => do
    let (fragments, rest) ← r.decompose fontSize none tokens
    if rest.isEmpty then return fragments
    else .fail (.malformed (tokens.length - rest.length) (.trailing rest.length))

end Renderer

end Ideograph
