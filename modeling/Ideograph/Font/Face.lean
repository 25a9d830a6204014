import Ideograph.Font.Parser
import Ideograph.Font.Sink
import Ideograph.Glyph

/-! # Font faces

A face is a font file that its parser accepts, with the metrics found at that time. For everything
else the parser is asked again.
-/

namespace Ideograph.Font

open Number

/-- Why a file is not a font, in the words of a parser. -/
structure Fault where
  reason : String
  deriving DecidableEq, Repr

def Fault.message (e : Fault) : String :=
  "font parse error: " ++ e.reason

/-- A font as it is used for drawing. -/
structure Face (parse : Parser) where
  bytes : ByteArray
  unitsPerEm : UInt16
  ascender : Int16
  accepted : ∃ parsed, parse bytes = .ok parsed ∧ parsed.unitsPerEm = unitsPerEm ∧
    parsed.ascender = ascender

namespace Face

variable {parse : Parser}

/-- Read a font file. -/
def read (parse : Parser) (bytes : ByteArray) : Except Fault (Face parse) :=
  match h : parse bytes with
  | .error reason => .error ⟨reason⟩
  | .ok parsed => .ok ⟨bytes, parsed.unitsPerEm, parsed.ascender, parsed, h, rfl, rfl⟩

/-- What the parser finds when it is asked again. -/
def parsed (f : Face parse) : Parsed :=
  match h : parse f.bytes with
  | .ok parsed => parsed
  | .error _ => absurd f.accepted fun ⟨_, hok, _⟩ => nomatch h.symm.trans hok

/-- One line on a font. -/
def summary (f : Face parse) : String :=
  "FontData \x7b units_per_em: " ++ toString f.unitsPerEm ++ ", ascender: " ++
    toString f.ascender ++ ", bytes_len: " ++ toString f.bytes.size ++ " \x7d"

def glyph? (f : Face parse) (c : Char) : Option UInt16 :=
  f.parsed.glyph? c

variable {α σ : Type} [Scalar α]

/-- The size of a unit of the font. -/
def scale (f : Face parse) (fontSize : α) : α :=
  fontSize / Scalar.ofDouble (.ofInt f.unitsPerEm.toNat)

/-- A coordinate in units of the font, widened and scaled to a font size. -/
def sized (f : Face parse) (fontSize : α) (x : Single) : α :=
  Scalar.ofDouble x.convert * f.scale fontSize

/-- Hand over the outline of a glyph at a font size, and say whether it has one. -/
def outline (f : Face parse) (glyph : UInt16) (fontSize : α) (sink : Sink α σ) (state : σ) :
    σ × Bool :=
  let emission := f.parsed.emission glyph
  ((sink.adapt (f.sized fontSize)).receiveAll state emission.path, emission.isOutline)

/-- The glyphs of a font, each with all that is handed over of its outline. -/
def source (f : Face parse) : GlyphSource α :=
  fun c fontSize =>
    match f.glyph? c with
    | none => .error (.unsupported c)
    | some glyph =>
      let (path, _) := f.outline glyph fontSize .collecting []
      .ok ⟨path, Scalar.ofDouble (.ofInt f.ascender.toInt),
        Scalar.ofDouble (.ofInt f.unitsPerEm.toNat)⟩

end Face

end Ideograph.Font
