import Ideograph.Path.Writer
import Ideograph.Proofs.Font.Face
import Ideograph.Proofs.Font.Pieces
import Ideograph.Proofs.Outcome

/-! # What is left of a glyph that breaks off

A sink is not told before the end whether a glyph has an outline. With a parser that draws while it
reads, it has received the pieces before the first fault by then. A source passes them on as if they
were the glyph.
-/

namespace Ideograph.Font

open Number Piece

/-- A sink receives the pieces of a glyph up to the first fault, whether or not it is told that the
glyph has an outline. Where there is a fault it is not told so, and then nothing was received
exactly if nothing is drawn before the fault. A source passes on the same path without a sign of
what is missing: the path is empty or whole exactly if what is drawn before the fault is. -/
theorem Face.received_of_glyph {parse : Parser} {f : Face parse} {pieces : UInt16 → List Piece}
    (hpieces : f.parsed.DrawsWhileReading pieces) {α : Type} [Scalar α] (glyph : UInt16)
    (fontSize : α) :
    let shown := received (pieces glyph)
    let whole := drawing (pieces glyph)
    let isOutline := (f.parsed.emission glyph).isOutline
    let scaled (path : Path Single) : Path α := path.mapPoints (Point.map (f.sized fontSize))
    (∀ (σ : Type) (sink : Sink α σ) (state : σ),
      f.outline glyph fontSize sink state = (sink.receiveAll state (scaled shown), isOutline)) ∧
    shown <+: whole ∧
    (fault ∉ pieces glyph → shown = whole) ∧
    (fault ∈ pieces glyph → isOutline = false) ∧
    ((∀ (σ : Type) (sink : Sink α σ) (state : σ),
        (f.outline glyph fontSize sink state).2 = false →
          (f.outline glyph fontSize sink state).1 = state) ↔
      shown = [] ∨ isOutline = true) ∧
    ∀ c, f.glyph? c = some glyph →
      ∃ g, f.source c fontSize = .ok g ∧ g.path = scaled shown ∧
        (g.path = [] ∨ g.path = scaled whole ↔ shown = [] ∨ shown = whole) := by
  intro shown whole isOutline scaled
  have houtline : ∀ (σ : Type) (sink : Sink α σ) (state : σ),
      f.outline glyph fontSize sink state = (sink.receiveAll state (scaled shown), isOutline) := by
    intro σ sink state
    rw [outline_eq, hpieces.handed]
  have hprefix : shown <+: whole := received_prefix _
  have hempty : scaled shown = [] ↔ shown = [] := List.map_eq_nil_iff
  refine ⟨houtline, hprefix, received_eq_drawing, hpieces.refused glyph, ?_, fun c hglyph => ?_⟩
  · simp only [houtline]
    constructor
    · intro h
      rcases hflag : isOutline with _ | _
      · -- a sink that collects shows that nothing was received
        have hcollected := h _ .collecting [] hflag
        rw [Sink.receiveAll_collecting, List.nil_append] at hcollected
        exact .inl (hempty.mp hcollected)
      · exact .inr rfl
    · rintro (hshown | hflag) σ sink state hfalse
      · rw [hempty.mpr hshown]
        rfl
      · cases hflag.symm.trans hfalse
  · refine ⟨_, source_eq hglyph fontSize, by rw [hpieces.handed], ?_⟩
    rw [hpieces.handed]
    refine or_congr hempty ⟨fun h => ?_, fun h => congrArg scaled h⟩
    have hlength := congrArg List.length h
    simp only [scaled, Path.mapPoints, List.length_map] at hlength
    exact hprefix.eq_of_length hlength

/-- A font with a composite glyph for one character. Of its two components the second is cut off
behind the number of its contours. -/
def brokenFont : ByteArray :=
  let entry (tag : String) (start size : Nat) : List Nat :=
    tag.toList.map Char.toNat ++ [0, 0, 0, 0, 0, 0, 0, start, 0, 0, 0, size]
  let directory := [0, 1, 0, 0, 0, 6, 0, 0, 0, 0, 0, 0] ++ entry "cmap" 168 24 ++
    entry "glyf" 192 46 ++ entry "head" 108 54 ++ entry "hhea" 108 54 ++ entry "loca" 238 10 ++
    entry "maxp" 162 6
  -- one table is both headers: 900 at the place of the ascender, 1000 at that of the units
  let metrics := [0, 0, 0, 0, 3, 132] ++ List.replicate 12 0 ++ [3, 232] ++ List.replicate 34 0
  let profile := [0, 0, 80, 0, 0, 4]
  let map := [0, 0, 0, 1, 0, 0, 0, 3, 0, 0, 0, 12, 0, 6, 0, 12, 0, 0, 83, 227, 0, 1, 0, 1]
  let box := List.replicate 8 0
  let composite := [255, 255] ++ box ++ [0, 34, 0, 2, 0, 0] ++ [0, 2, 0, 3, 0, 0]
  let triangle := [0, 1] ++ box ++ [0, 2, 0, 0] ++ [63, 2] ++ [0, 100, 0] ++ [0, 0, 100]
  let locations := [0, 0, 0, 0, 0, 11, 0, 22, 0, 23]
  ⟨((directory ++ metrics ++ profile ++ map ++ composite ++ triangle ++ [0, 1] ++
    locations).map UInt8.ofNat).toArray⟩

/-- The component that is sound is a glyph of its own and is received whole. For the composite glyph
the same is received, and passed on for its character. -/
theorem Face.received_of_component :
    ∃ (f : Face Plain.parse) (pieces : UInt16 → List Piece),
      Face.read Plain.parse brokenFont = .ok f ∧ f.parsed.DrawsWhileReading pieces ∧
      f.glyph? '口' = some 1 ∧ (f.outline 1 (1000.0 : Double) .collecting []).2 = false ∧
      ∃ g, f.source '口' (1000.0 : Double) = .ok g ∧
        g.path = (received (pieces 1)).mapPoints (Point.map (f.sized 1000.0)) ∧
        g.path = (received (pieces 2)).mapPoints (Point.map (f.sized 1000.0)) := by
  obtain ⟨found, hparse, hfound⟩ := exists_of_toOption_any (t := Plain.parse brokenFont)
    (p := fun found => decide (found.glyph? '口' = some 1 ∧ (found.emission 1).isOutline = false ∧
      (found.emission 1).path = (found.emission 2).path)) (by decide +kernel)
  obtain ⟨hglyph, hflag, hsame⟩ := of_decide_eq_true hfound
  obtain ⟨f, hread, -, rfl⟩ := Face.exists_read hparse
  obtain ⟨pieces, hpieces⟩ := Plain.exists_pieces hparse
  obtain ⟨-, -, -, -, -, hsource⟩ := Face.received_of_glyph hpieces 1 (1000.0 : Double)
  obtain ⟨g, hg, hpath, -⟩ := hsource '口' hglyph
  refine ⟨f, pieces, hread, hpieces, hglyph, ?_, g, hg, hpath, ?_⟩
  · rw [outline_eq, hflag]
  · rw [hpath, ← hpieces.handed 1, hsame, hpieces.handed 2]

/-- A sink is told that a glyph has no outline after it received the first component, and the source
passes that on. -/
theorem Face.received_cutOff :
    ∃ f : Face Plain.parse, Face.read Plain.parse brokenFont = .ok f ∧
      (∃ pieces, f.parsed.DrawsWhileReading pieces) ∧ f.glyph? '口' = some 1 ∧
      (f.outline 1 (1000.0 : Double) .collecting []).2 = false ∧
      (f.outline 1 (1000.0 : Double) .collecting []).1.write 2 = "M0 0L100 0L100 100L0 0Z" ∧
      (f.source '口' (1000.0 : Double)).toOption.map (·.path.write 2) =
        some "M0 0L100 0L100 100L0 0Z" := by
  obtain ⟨f, hread, hfont⟩ := exists_of_toOption_any (t := Face.read Plain.parse brokenFont)
    (p := fun f => decide (f.glyph? '口' = some 1 ∧
      (f.outline 1 (1000.0 : Double) .collecting []).2 = false ∧
      (f.outline 1 (1000.0 : Double) .collecting []).1.write 2 = "M0 0L100 0L100 100L0 0Z" ∧
      (f.source '口' (1000.0 : Double)).toOption.map (·.path.write 2) =
        some "M0 0L100 0L100 100L0 0Z")) (by decide +kernel)
  exact ⟨f, hread, Plain.exists_pieces f.parse_bytes, of_decide_eq_true hfont⟩

end Ideograph.Font
