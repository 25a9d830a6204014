import Ideograph.Document.Report
import Ideograph.Font.Face

/-! # Pages

A page holds one font and draws sequences with it one by one, for whoever shows them.
-/

namespace Ideograph

open Number

/-- A font and what to draw with it. The colour is accepted and not used. -/
structure Page (parse : Font.Parser) where
  face : Font.Face parse
  fontSize : Double
  color : String

namespace Page

/-- Set up a page with a font file. -/
def create (parse : Font.Parser) (bytes : ByteArray) (fontSize : Option Double)
    (color : Option String) : Except Font.Fault (Page parse) := do
  return {
    face := ← Font.Face.read parse bytes
    fontSize := fontSize.getD defaultFontSize
    color := color.getD fill }

/-- Report on one sequence. -/
def report {parse : Font.Parser} (p : Page parse) (ids : String) : Report :=
  .ofSequence p.face.source p.fontSize ids

end Page

end Ideograph
