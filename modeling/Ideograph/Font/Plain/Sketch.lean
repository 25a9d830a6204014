import Ideograph.Path.Basic

/-! # Sketches

An outline is drawn while its glyph is read. Where reading fails, what was drawn before stays.
-/

namespace Ideograph.Font.Plain

open Number

/-- What was drawn of a glyph, and whether reading came to its end. -/
structure Sketch where
  path : Path Single
  complete : Bool

namespace Sketch

/-- Nothing could be read. -/
def failed : Sketch := ⟨[], false⟩

/-- Draw one thing after the other, up to the first that is incomplete. Those that do not exist
are left out. -/
def sequence {β : Type} (draw : β → Option Sketch) : List β → Sketch
  | [] => ⟨[], true⟩
  | b :: bs =>
    match draw b with
    | none => sequence draw bs
    | some first =>
      if first.complete then
        let rest := sequence draw bs
        ⟨first.path ++ rest.path, rest.complete⟩
      else first

/-- The points of a sketch, control points included. -/
def points (s : Sketch) : List (Point Single) :=
  s.path.flatMap Element.points

/-- Whether the integral part of a coordinate is a number of two bytes with a sign. -/
def isBounded (x : Single) : Bool :=
  x.isFinite && decide (-32769 < x.toRat) && decide (x.toRat < 32768)

/-- A sketch is an outline if it is complete and not empty, and its bounding box can be stored in
a font. -/
def isOutline (s : Sketch) : Bool :=
  s.complete && !s.points.isEmpty && s.points.all fun p => isBounded p.x && isBounded p.y

end Sketch

end Ideograph.Font.Plain
