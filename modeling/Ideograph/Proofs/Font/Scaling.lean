import Ideograph.Proofs.Font.Reading
import Ideograph.Proofs.Path.RoundTrip

/-! # Outlines at every size

What a sink receives of a glyph are the movements that the parser hands over, whatever the font size
is: each with its kind and its points, and each coordinate scaled in its place. Only the scaling is
rounded, since coordinates and metrics of a font are exact in the wider format.
-/

namespace Ideograph.Font.Face

open Number

/-- At every font size a sink receives the movements that the parser hands over for a glyph, and is
told what the parser says of it; only the coordinates are scaled, each in its place, after they were
widened without a loss. The glyph of a character has one element for each of these movements, and
the metrics that were found when the file was accepted. -/
theorem outline_scaled {parse : Parser} {bytes : ByteArray} {found : Parsed}
    (hparse : parse bytes = .ok found) {c : Char} {glyph : UInt16}
    (hglyph : found.glyph? c = some glyph) :
    let design := found.emission glyph
    let sized (fontSize : Double) (x : Single) : Double :=
      x.convert * (fontSize / .ofInt found.unitsPerEm.toNat)
    ∃ f, Face.read parse bytes = .ok f ∧ f.unitsPerEm = found.unitsPerEm ∧
      f.ascender = found.ascender ∧ f.glyph? c = some glyph ∧
      (∀ (fontSize : Double) (σ : Type) (sink : Sink Double σ) (state : σ),
        f.outline glyph fontSize sink state =
          (sink.receiveAll state (design.path.mapPoints (Point.map (sized fontSize))),
            design.isOutline)) ∧
      (∀ s t : Double,
        (f.outline glyph s .collecting []).1.map Element.letter =
          (f.outline glyph t .collecting []).1.map Element.letter ∧
        (f.outline glyph s .collecting []).2 = (f.outline glyph t .collecting []).2) ∧
      (∀ x : Single, x.isFinite = true → (x.convert : Double).HasValue x.toRat) ∧
      ∀ fontSize : Double, ∃ g, f.source c fontSize = .ok g ∧
        g.path = (f.outline glyph fontSize .collecting []).1 ∧
        g.path = design.path.mapPoints (Point.map (sized fontSize)) ∧
        g.ascender.HasValue found.ascender.toInt ∧
        g.unitsPerEm.HasValue found.unitsPerEm.toNat := by
  intro design sized
  obtain ⟨f, hread, -, rfl⟩ := exists_read hparse
  obtain ⟨hunits, hascender⟩ := f.metrics_eq
  have hsized : ∀ fontSize : Double, f.sized fontSize = sized fontSize := by
    intro fontSize
    funext x
    change x.convert * (fontSize / .ofInt f.unitsPerEm.toNat) = _
    rw [hunits]
  have houtline : ∀ (fontSize : Double) (σ : Type) (sink : Sink Double σ) (state : σ),
      f.outline glyph fontSize sink state =
        (sink.receiveAll state (design.path.mapPoints (Point.map (sized fontSize))),
          design.isOutline) := by
    intro fontSize σ sink state
    rw [outline_eq, hsized]
  refine ⟨f, hread, hunits, hascender, hglyph, houtline, fun s t => ?_, fun x hx => ?_,
    fun fontSize => ?_⟩
  · simp only [houtline, Sink.receiveAll_collecting, List.nil_append, Path.map_letter_mapPoints,
      and_self]
  · exact Binary.hasValue_convert Format.valid_double (by decide) (by decide) (by decide) hx
  · refine ⟨_, source_eq hglyph fontSize, ?_, by rw [hsized], ?_, ?_⟩
    · rw [houtline, Sink.receiveAll_collecting, hsized]
      rfl
    · rw [← hascender]
      exact hasValue_ascender _
    · rw [← hunits]
      exact hasValue_unitsPerEm _

/-- A glyph of curves, whose points are all control points, that breaks off. It does so at every
size, and its points keep their places. -/
theorem outline_scaled_curves :
    -- the flags of the three points say that none of them is on the curve
    let font := brokenFont.set! 228 62
    ∃ found, Plain.parse font = .ok found ∧ found.glyph? '口' = some 1 ∧
      ∃ f, Face.read Plain.parse font = .ok f ∧
      (f.outline 1 (72.0 : Double) .collecting []).2 = false ∧
      (f.outline 1 (500.0 : Double) .collecting []).2 = false ∧
      ∃ g, f.source '口' (500.0 : Double) = .ok g ∧
        g.path.map Element.letter = ['M', 'Q', 'Q', 'Q', 'Z'] ∧
        g.path.write 2 = "M25 0Q50 0 50 25Q50 50 25 25Q0 0 25 0Z" ∧
        g.ascender.HasValue 900 ∧ g.unitsPerEm.HasValue 1000 := by
  intro font
  obtain ⟨found, hparse, hfound⟩ := exists_of_toOption_any (t := Plain.parse font)
    (p := fun found => decide (found.glyph? '口' = some 1 ∧ found.unitsPerEm = 1000 ∧
      found.ascender = 900 ∧ (found.emission 1).isOutline = false ∧
      (found.emission 1).path.map Element.letter = ['M', 'Q', 'Q', 'Q', 'Z'] ∧
      ((found.emission 1).path.mapPoints (Point.map fun x =>
        (x.convert * (500.0 / .ofInt found.unitsPerEm.toNat) : Double))).write 2 =
          "M25 0Q50 0 50 25Q50 50 25 25Q0 0 25 0Z")) (by decide +kernel)
  obtain ⟨hglyph, hunits, hascender, hflag, hletters, htext⟩ := of_decide_eq_true hfound
  obtain ⟨f, hread, -, -, -, houtline, -, -, hsource⟩ := outline_scaled hparse hglyph
  obtain ⟨g, hg, -, hpath, hvalue, hvalue'⟩ := hsource 500.0
  rw [hascender] at hvalue
  rw [hunits] at hvalue'
  refine ⟨found, hparse, hglyph, f, hread, ?_, ?_, g, hg, ?_, ?_, hvalue, hvalue'⟩
  · rw [houtline, hflag]
  · rw [houtline, hflag]
  · rw [hpath, Path.map_letter_mapPoints, hletters]
  · rw [hpath, htext]

end Ideograph.Font.Face
