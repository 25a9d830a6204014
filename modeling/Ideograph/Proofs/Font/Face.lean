import Ideograph.Font.Face
import Ideograph.Proofs.Number.Representable

/-! # What a face hands over

A parser that has accepted a file finds the same in it each time, so a face can always be asked.
What a sink receives of a glyph is what the parser hands over, with every coordinate scaled.
-/

namespace Ideograph.Font

open Number

namespace Sink

variable {α β σ : Type}

theorem receive_adapt (f : β → α) (sink : Sink α σ) (state : σ) (e : Element β) :
    (sink.adapt f).receive state e = sink.receive state (e.map (Point.map f)) := by
  cases e <;> rfl

/-- Behind an adapter a sink receives the same movements with every coordinate converted. -/
theorem receiveAll_adapt (f : β → α) (sink : Sink α σ) (state : σ) (path : Path β) :
    (sink.adapt f).receiveAll state path =
      sink.receiveAll state (path.mapPoints (Point.map f)) := by
  induction path generalizing state with
  | nil => rfl
  | cons e path ih =>
    change (sink.adapt f).receiveAll ((sink.adapt f).receive state e) path = _
    rw [ih, receive_adapt]
    rfl

theorem receive_collecting (path : Path α) (e : Element α) :
    collecting.receive path e = path ++ [e] := by
  cases e <;> rfl

/-- What is collected is what was received. -/
theorem receiveAll_collecting (path rest : Path α) :
    collecting.receiveAll path rest = path ++ rest := by
  induction rest generalizing path with
  | nil => exact (List.append_nil path).symm
  | cons e rest ih =>
    change collecting.receiveAll (collecting.receive path e) rest = _
    rw [ih, receive_collecting, List.append_assoc]
    rfl

end Sink

namespace Face

variable {parse : Parser} {f : Face parse}

theorem parse_bytes (f : Face parse) : parse f.bytes = .ok f.parsed := by
  unfold parsed
  split
  · assumption
  · next herror =>
    obtain ⟨_, hok, -⟩ := f.accepted
    cases herror.symm.trans hok

/-- The metrics that were kept are those that the parser still finds. -/
theorem metrics_eq (f : Face parse) :
    f.unitsPerEm = f.parsed.unitsPerEm ∧ f.ascender = f.parsed.ascender := by
  obtain ⟨parsed, hok, hunits, hascender⟩ := f.accepted
  obtain rfl := Except.ok.inj (hok.symm.trans f.parse_bytes)
  exact ⟨hunits.symm, hascender.symm⟩

/-- A file is accepted if the parser finds something in it. -/
theorem exists_read {bytes : ByteArray} {parsed : Parsed} (h : parse bytes = .ok parsed) :
    ∃ f, Face.read parse bytes = .ok f ∧ f.bytes = bytes ∧ f.parsed = parsed := by
  have hread : ∃ f, Face.read parse bytes = .ok f ∧ f.bytes = bytes := by
    unfold read
    split
    · next herror => cases herror.symm.trans h
    · exact ⟨_, rfl, rfl⟩
  obtain ⟨f, hread, rfl⟩ := hread
  exact ⟨f, hread, rfl, Except.ok.inj (f.parse_bytes.symm.trans h)⟩

/-- Metrics are exact when they are widened. -/
theorem hasValue_unitsPerEm (units : UInt16) :
    (Binary.ofInt units.toNat : Double).HasValue units.toNat := by
  have hvalue := Binary.hasValue_ofInt (n := units.toNat) Format.valid_double
    (by rw [Int.natAbs_natCast]; exact units.toNat_lt.trans (by decide))
  rwa [Int.cast_natCast] at hvalue

theorem hasValue_ascender (height : Int16) :
    (Binary.ofInt height.toInt : Double).HasValue height.toInt := by
  have hlow := height.le_toInt
  have hhigh := height.toInt_lt
  refine Binary.hasValue_ofInt Format.valid_double (lt_of_lt_of_le ?_ (by decide : 2 ^ 16 ≤ _))
  omega

section Outline

variable {α σ : Type} [Scalar α]

theorem outline_eq (f : Face parse) (glyph : UInt16) (fontSize : α) (sink : Sink α σ) (state : σ) :
    f.outline glyph fontSize sink state =
      (sink.receiveAll state
          ((f.parsed.emission glyph).path.mapPoints (Point.map (f.sized fontSize))),
        (f.parsed.emission glyph).isOutline) := by
  simp only [outline, Sink.receiveAll_adapt]

theorem source_eq {c : Char} {glyph : UInt16} (hglyph : f.glyph? c = some glyph) (fontSize : α) :
    f.source c fontSize = .ok
      ⟨(f.parsed.emission glyph).path.mapPoints (Point.map (f.sized fontSize)),
        Scalar.ofDouble (.ofInt f.ascender.toInt),
        Scalar.ofDouble (.ofInt f.unitsPerEm.toNat)⟩ := by
  unfold source
  rw [hglyph]
  simp only [outline_eq, Sink.receiveAll_collecting, List.nil_append]

end Outline

end Face

end Ideograph.Font
