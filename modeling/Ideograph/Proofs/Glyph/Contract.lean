import Ideograph.Font.Face
import Ideograph.Glyph.Sources
import Ideograph.Proofs.Outcome

/-! # The contract of glyph sources

A source that has no glyph for a character says that this character is not supported. It may also
hold path data that cannot be read. The errors of the drawing itself, such as a missing operand or
too many operators around a token, are not for a source to give.
-/

namespace Ideograph.GlyphSource

open Number

variable {α : Type}

/-- A source refuses a character only as unsupported, or for its path data. -/
def KeepsContract (source : GlyphSource α) : Prop :=
  ∀ c fontSize e, source c fontSize = .error e → e = .unsupported c ∨ ∃ fault, e = .path fault

section Errors

variable {source : GlyphSource α} {c d : Char} {fontSize : α} {e : RenderError}

theorem KeepsContract.eq_of_unsupported (h : source.KeepsContract)
    (hsource : source c fontSize = .error (.unsupported d)) : d = c := by
  obtain hd | ⟨fault, hd⟩ := h c fontSize _ hsource
  · cases hd
    rfl
  · cases hd

/-- The errors of the drawing itself do not come from the source. -/
theorem KeepsContract.ne_error (h : source.KeepsContract) (hunsupported : ∀ c, e ≠ .unsupported c)
    (hpath : ∀ fault, e ≠ .path fault) : source c fontSize ≠ .error e := by
  intro hsource
  obtain he | ⟨fault, he⟩ := h c fontSize e hsource
  · exact hunsupported c he
  · exact hpath fault he

end Errors

variable [Scalar α]

theorem keepsContract_squares (missing : List Char) (ascender unitsPerEm : α) :
    (squares missing ascender unitsPerEm).KeepsContract := by
  intro c fontSize e h
  rw [squares] at h
  split at h
  · cases h
    exact .inl rfl
  · cases h

theorem keepsContract_drawn (glyphs : List (Char × String)) (ascender unitsPerEm : α) :
    (drawn glyphs ascender unitsPerEm).KeepsContract := by
  intro c fontSize e h
  rw [drawn] at h
  split at h
  · cases h
    exact .inl rfl
  · obtain hread | ⟨path, -, hpure⟩ := bind_eq_error_iff.mp h
    · obtain ⟨fault, -, hfault⟩ := mapError_eq_error_iff.mp hread
      exact .inr ⟨fault, hfault.symm⟩
    · cases hpure

/-- Whatever a parser finds in a font, it refuses only characters that it has no glyph for. -/
theorem keepsContract_face {parse : Font.Parser} (f : Font.Face parse) :
    KeepsContract (f.source : GlyphSource α) := by
  intro c fontSize e h
  rw [Font.Face.source] at h
  split at h
  · cases h
    exact .inl rfl
  · cases h

end Ideograph.GlyphSource
