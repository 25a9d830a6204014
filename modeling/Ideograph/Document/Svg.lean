import Ideograph.Document.Markup
import Ideograph.Render.Engine

/-! # SVG documents

A drawing becomes a square document with one path for each fragment, in the order in which they
are painted. Path data is passed on as it is. Attributes stand in alphabetical order.
-/

namespace Ideograph

open Number

/-- The fill of every fragment. -/
def fill : String := "black"

def pathElement (data : String) : List Char :=
  Markup.emptyElement "path" [("d", data), ("fill", fill)]

variable {α : Type} [Scalar α]

/-- A document of the given side around fragments. -/
def document (side : α) (fragments : List String) : String :=
  let side := String.ofList (Scalar.text drawingPlaces side)
  String.ofList <| Markup.element "svg"
    [("height", side), ("width", side), ("xmlns", "http://www.w3.org/2000/svg"),
      ("xmlns:xlink", "http://www.w3.org/1999/xlink")]
    (fragments.map pathElement)

/-- Draw a sequence as a document. -/
def Renderer.document (r : Renderer α) (fontSize : α) (ids : String) : Traced String := do
  return Ideograph.document fontSize (← r.render fontSize ids.toList)

end Ideograph
