import Ideograph.Font.Plain
import Mathlib.Data.List.TakeWhile

/-! # Glyphs that break off

Reading a glyph comes upon one piece after the other, each of which is drawn at once or cannot be
read. A parser that draws while it reads has handed over the pieces before the first fault when it
comes to the fault, and they are not taken back. The parser for plain fonts is one of this kind.
-/

namespace Ideograph.Font

open Number

/-- Something to draw, or a place where reading fails. -/
inductive Piece where
  | drawn (path : Path Single)
  | fault

namespace Piece

def path : Piece → Path Single
  | drawn path => path
  | fault => []

def isDrawn : Piece → Bool
  | drawn _ => true
  | fault => false

/-- The drawing of all pieces, faults left out. -/
def drawing (pieces : List Piece) : Path Single :=
  pieces.flatMap path

/-- The drawing up to the first fault. -/
def received (pieces : List Piece) : Path Single :=
  drawing (pieces.takeWhile isDrawn)

@[simp] theorem received_drawn (path : Path Single) (rest : List Piece) :
    received (drawn path :: rest) = path ++ received rest := by
  rw [received, List.takeWhile_cons_of_pos rfl, drawing, List.flatMap_cons]
  rfl

theorem isDrawn_iff {piece : Piece} : piece.isDrawn = true ↔ piece ≠ fault := by
  cases piece <;> simp [isDrawn]

theorem all_isDrawn {pieces : List Piece} : pieces.all isDrawn = true ↔ fault ∉ pieces := by
  simp only [List.all_eq_true, isDrawn_iff]
  exact ⟨fun h hfault => h fault hfault rfl, fun h piece hpiece heq => h (heq ▸ hpiece)⟩

theorem received_prefix (pieces : List Piece) : received pieces <+: drawing pieces := by
  obtain ⟨rest, hrest⟩ := List.takeWhile_prefix (p := isDrawn) (l := pieces)
  exact ⟨drawing rest, by rw [received, drawing, drawing, ← List.flatMap_append, hrest]; rfl⟩

theorem received_eq_drawing {pieces : List Piece} (h : fault ∉ pieces) :
    received pieces = drawing pieces := by
  rw [received, List.takeWhile_eq_self_iff.mpr (List.all_eq_true.mp (all_isDrawn.mpr h))]

end Piece

open Piece

/-- A parser that draws while it reads: it hands over the pieces of a glyph up to the first fault,
and where it meets a fault it does not say that there is an outline. -/
structure Parsed.DrawsWhileReading (p : Parsed) (pieces : UInt16 → List Piece) : Prop where
  handed : ∀ glyph, (p.emission glyph).path = received (pieces glyph)
  refused : ∀ glyph, fault ∈ pieces glyph → (p.emission glyph).isOutline = false

namespace Plain

namespace Sketch

/-- What reading makes of the pieces of a glyph. -/
def ofPieces (pieces : List Piece) : Sketch :=
  ⟨received pieces, pieces.all isDrawn⟩

@[simp] theorem ofPieces_nil : ofPieces [] = ⟨[], true⟩ := rfl

@[simp] theorem ofPieces_fault (rest : List Piece) : ofPieces (fault :: rest) = failed := rfl

@[simp] theorem ofPieces_drawn (path : Path Single) (rest : List Piece) :
    ofPieces (drawn path :: rest) =
      ⟨path ++ (ofPieces rest).path, (ofPieces rest).complete⟩ := by
  simp [ofPieces, isDrawn]

/-- Reading goes on behind pieces if it came to their end. -/
theorem ofPieces_append (pieces rest : List Piece) :
    ofPieces (pieces ++ rest) =
      if (ofPieces pieces).complete then
        ⟨(ofPieces pieces).path ++ (ofPieces rest).path, (ofPieces rest).complete⟩
      else ofPieces pieces := by
  induction pieces with
  | nil => rfl
  | cons piece pieces ih =>
    cases piece with
    | fault => rfl
    | drawn path =>
      simp only [List.cons_append, ofPieces_drawn, ih]
      split <;> simp

theorem sequence_eq_ofPieces {β : Type} {draw : β → Option Sketch} {pieces : β → List Piece}
    (h : ∀ b, (draw b).getD ⟨[], true⟩ = ofPieces (pieces b)) (bs : List β) :
    sequence draw bs = ofPieces (bs.flatMap pieces) := by
  induction bs with
  | nil => rfl
  | cons b bs ih =>
    have hb := h b
    rw [List.flatMap_cons, ofPieces_append, ← hb, sequence, ih]
    cases draw b <;> rfl

end Sketch

namespace TrueType

/-- The data of a glyph: contours, or components, or nothing. -/
inductive Shape where
  | unreadable
  | blank
  | simple (knots : List Knot)
  | composite (components : List Component)

def Shape.read (data : Chunk) : Shape :=
  match data.word? 0, data.drop? 10 with
  | none, _ => unreadable
  | some 0, _ => blank
  | some _, none => unreadable
  | some n, some body =>
    if 0 < signedWord n then (Simple.knots? body (signedWord n).toNat).elim unreadable simple
    else composite (Component.readAll body body.size 0)

/-- The pieces of a glyph moved by `m`: its contours in one, or the pieces of its components. -/
def pieces (t : TrueType) : Nat → Affine → Chunk → List Piece
  | 0, _, _ => [fault]
  | levels + 1, m, data =>
    match Shape.read data with
    | .unreadable => [fault]
    | .blank => []
    | .simple knots => [drawn ((Tracer.idle.trace knots).mapPoints m.apply)]
    | .composite components => components.flatMap fun c =>
      (t.data? c.glyph).elim [] (pieces t levels (m.compose c.map))

theorem draw_succ (t : TrueType) (levels : Nat) (m : Affine) (data : Chunk) :
    t.draw (levels + 1) m data =
      match Shape.read data with
      | .unreadable => .failed
      | .blank => ⟨[], true⟩
      | .simple knots => ⟨(Tracer.idle.trace knots).mapPoints m.apply, true⟩
      | .composite components => Sketch.sequence
        (fun c => (t.data? c.glyph).map (t.draw levels (m.compose c.map))) components := by
  rw [draw, Shape.read]
  rcases data.word? 0 with _ | _ | n
  · rfl
  · rfl
  · rcases data.drop? 10 with _ | body
    · rfl
    · by_cases hsimple : 0 < signedWord (n + 1)
      · simp only [if_pos hsimple]
        rcases Simple.knots? body (signedWord (n + 1)).toNat with _ | knots <;> rfl
      · simp only [if_neg hsimple]

theorem draw_eq_ofPieces (t : TrueType) (levels : Nat) (m : Affine) (data : Chunk) :
    t.draw levels m data = .ofPieces (t.pieces levels m data) := by
  induction levels generalizing m data with
  | zero => rfl
  | succ levels ih =>
    rw [draw_succ, pieces]
    cases Shape.read data with
    | unreadable | blank => rfl
    | simple knots => simp
    | composite components =>
      refine Sketch.sequence_eq_ofPieces (fun c => ?_) components
      cases t.data? c.glyph with
      | none => rfl
      | some data => exact ih _ data

end TrueType

namespace Charstring

/-- Carry out a command that does not finish the glyph. -/
def Pen.obey? (pen : Pen) (c : Command) : Option (Path Single × Pen) :=
  if c.moves then pen.move? c else pen.draw? (c.strokes pen.operands).1

/-- The pieces of a charstring: what each command draws. Behind a command with operands left over,
behind the last token, and behind the command that finishes the glyph if it is not the last, there
is a fault. -/
def pieces : Pen → List Token → List Piece
  | _, [] | _, .unknown :: _ => [fault]
  | pen, .number x :: rest =>
    if pen.operands.length < maxOperands then
      pieces { pen with operands := pen.operands ++ [x] } rest
    else [fault]
  | pen, .command c :: rest =>
    if c = .finish then
      pen.finish?.elim [fault] fun path => drawn path :: if rest.isEmpty then [] else [fault]
    else
      match pen.obey? c with
      | none => [fault]
      | some (path, next) =>
        drawn path ::
          if c.moves || (c.strokes pen.operands).2 then pieces next rest else [fault]

theorem draw_eq_ofPieces (pen : Pen) (tokens : List Token) :
    draw pen tokens = .ofPieces (pieces pen tokens) := by
  induction tokens generalizing pen with
  | nil => rfl
  | cons token rest ih =>
    cases token with
    | unknown => rfl
    | number x =>
      rw [draw, pieces]
      split
      · exact ih _
      · rfl
    | command c =>
      rw [draw, pieces]
      by_cases hfinish : c = .finish
      · simp only [if_pos hfinish]
        cases pen.finish? with
        | none => rfl
        | some path => cases rest <;> simp [Sketch.failed]
      · simp only [if_neg hfinish]
        change (match pen.obey? c with | none => _ | some (path, next) => _) = _
        rcases pen.obey? c with _ | ⟨path, next⟩
        · rfl
        · dsimp only
          split <;> simp [ih, Sketch.failed]

end Charstring

namespace Outlines

/-- The pieces of a glyph. One that does not exist cannot be read. -/
def pieces : Outlines → Nat → List Piece
  | none, _ => [fault]
  | quadratic t, glyph => (t.data? glyph).elim [fault] (t.pieces TrueType.maxLevels .identity)
  | cubic c, glyph => (c.charstrings.get? glyph).elim [fault] fun code =>
    Charstring.pieces .initial (Charstring.tokens code code.size 0)

theorem sketch_eq_ofPieces (outlines : Outlines) (glyph : Nat) :
    outlines.sketch glyph = .ofPieces (outlines.pieces glyph) := by
  cases outlines with
  | none => rfl
  | quadratic t =>
    simp only [sketch, pieces, TrueType.sketch]
    cases t.data? glyph with
    | none => rfl
    | some data => exact t.draw_eq_ofPieces _ _ data
  | cubic c =>
    simp only [sketch, pieces, Compact.sketch]
    cases c.charstrings.get? glyph with
    | none => rfl
    | some code => exact Charstring.draw_eq_ofPieces _ _

end Outlines

theorem Tables.drawsWhileReading (t : Tables) :
    t.parsed.DrawsWhileReading fun glyph => t.outlines.pieces glyph.toNat where
  handed glyph := by
    change (t.outlines.sketch glyph.toNat).path = _
    rw [Outlines.sketch_eq_ofPieces]
    rfl
  refused glyph hfault := by
    change (t.outlines.sketch glyph.toNat).isOutline = false
    have hincomplete : ((t.outlines.pieces glyph.toNat).all isDrawn) = false := by
      rw [← Bool.not_eq_true, all_isDrawn]
      exact not_not.mpr hfault
    simp only [Outlines.sketch_eq_ofPieces, Sketch.isOutline, Sketch.ofPieces, hincomplete,
      Bool.false_and]

/-- What a plain font holds of a glyph is drawn while it is read. -/
theorem exists_pieces {bytes : ByteArray} {p : Parsed} (h : parse bytes = .ok p) :
    ∃ pieces, p.DrawsWhileReading pieces := by
  unfold parse at h
  split at h
  · cases h
  · next tables _ =>
    cases h
    exact ⟨_, tables.drawsWhileReading⟩

end Plain

end Ideograph.Font
