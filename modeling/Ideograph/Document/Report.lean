import Ideograph.Document.Svg

/-! # Reports

The outcome of drawing one sequence for a page that shows either the document or one line that
says what is wrong.
-/

namespace Ideograph

open Number

/-- One line on an error, with the position where it has one. -/
def RenderError.diagnostic : RenderError → String
  | e@(malformed position _) => "error [" ++ toString position ++ "] " ++ e.message
  | e => "error " ++ e.message

structure Report where
  svg : String
  diagnostics : String
  hasError : Bool
  deriving DecidableEq, Repr

namespace Report

def ofOutcome : Except RenderError String → Report
  | .ok svg => ⟨svg, "", false⟩
  | .error e => ⟨"", e.diagnostic, true⟩

/-- Report on one sequence, with the built-in parts and limit. -/
def ofSequence {α : Type} [Scalar α] (source : GlyphSource α) (fontSize : α) (ids : String) :
    Report :=
  let r : Renderer α := { source }
  ofOutcome (r.document fontSize ids).outcome

end Report

end Ideograph
