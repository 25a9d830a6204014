import Ideograph.Glyph.Sources
import Ideograph.Proofs.Path.RoundTrip

/-! # Closings in path data

A figure that goes on after it was closed is reopened by the reader, so every closing that was
read ends the path or is followed by a move. Hence path data that was read is written without
movements that reading would add.
-/

namespace Ideograph

open Number

variable {α : Type}

namespace Path

theorem separated_nil : Separated ([] : Path α) := by
  intro before after h
  simp at h

theorem separated_cons_iff {e : Element α} {path : Path α} :
    Separated (e :: path) ↔ (e = .close → path.Begun) ∧ path.Separated := by
  constructor
  · intro h
    exact ⟨fun he => h [] path (by rw [he]; rfl), h.tail⟩
  · rintro ⟨hclose, hpath⟩ before after heq
    cases before with
    | nil =>
      obtain ⟨he, rfl⟩ := List.cons.inj heq
      exact hclose he
    | cons e' before => exact hpath before after (List.cons.inj heq).2

theorem Separated.append_of_not_close {path more : Path α} (h : ∀ e ∈ path, e ≠ .close)
    (hmore : more.Separated) : (path ++ more).Separated := by
  induction path with
  | nil => exact hmore
  | cons e path ih =>
    simp only [List.mem_cons, forall_eq_or_imp] at h
    exact separated_cons_iff.mpr ⟨fun he => absurd he h.1, ih h.2⟩

theorem Separated.mapPoints {β : Type} {path : Path α} (h : path.Separated)
    (f : Point α → Point β) : (path.mapPoints f).Separated := by
  induction path with
  | nil => exact separated_nil
  | cons e path ih =>
    obtain ⟨hclose, hpath⟩ := separated_cons_iff.mp h
    refine separated_cons_iff.mpr ⟨fun he => ?_, ih hpath⟩
    have he' : e = .close := by cases e <;> simp_all [Element.map]
    exact (hclose he').mapPoints f

end Path

theorem CenterArc.curvesFrom_ne_close (a : CenterArc) (step arm : Double) (count : Nat)
    (angle : Double) (p : Point Double) :
    ∀ e ∈ a.curvesFrom step arm count angle p, e ≠ .close := by
  induction count generalizing angle p with
  | zero => simp [curvesFrom]
  | succ count ih =>
    rw [curvesFrom]
    exact List.forall_mem_cons.mpr ⟨nofun, ih _ _⟩

variable [Scalar α]

namespace Path.Reader

/-- What one command draws: a closing, after which the pen owes a move, or movements none of which
is a closing. -/
def ClosesOrDraws (drawn : Path α × Pen α) : Prop :=
  (drawn.1 = [.close] ∧ drawn.2.reopening.isSome = true) ∨ ∀ e ∈ drawn.1, e ≠ .close

theorem arc_ne_close {pen : Pen α} {command : Char} {cs rest : List Char} {drawn : Path α}
    {p : Point α} (h : (arc pen command).run cs = .ok ((drawn, p), rest)) :
    ∀ e ∈ drawn, e ≠ .close := by
  obtain ⟨⟨radii, cs₁⟩, -, h⟩ := bind_eq_ok_iff.mp h
  obtain ⟨⟨rotation, cs₂⟩, -, h⟩ := bind_eq_ok_iff.mp h
  obtain ⟨⟨large, cs₃⟩, -, h⟩ := bind_eq_ok_iff.mp h
  obtain ⟨⟨-, cs₄⟩, -, h⟩ := bind_eq_ok_iff.mp h
  obtain ⟨⟨sweep, cs₅⟩, -, h⟩ := bind_eq_ok_iff.mp h
  obtain ⟨⟨-, cs₆⟩, -, h⟩ := bind_eq_ok_iff.mp h
  obtain ⟨⟨q, cs₇⟩, -, h⟩ := bind_eq_ok_iff.mp h
  obtain rfl : _ = drawn := congrArg (fun result => result.1.1) (pure_eq_ok_iff.mp h)
  dsimp only
  split
  · simp
  · intro e he
    obtain ⟨e', he', rfl⟩ := List.mem_map.mp he
    have hcurve := CenterArc.curvesFrom_ne_close _ _ _ _ _ _ e' he'
    cases e' with
    | close => exact absurd rfl hcurve
    | _ => nofun

theorem closesOrDraws_of_draw {pen : Pen α} {command : Char} {cs rest : List Char}
    {drawn : Path α × Pen α} (h : (draw pen command).run cs = .ok (drawn, rest)) :
    ClosesOrDraws drawn := by
  rw [draw] at h
  split at h
  case h_8 =>
    -- An arc, which is drawn as any number of curves.
    obtain ⟨⟨⟨arcs, p⟩, cs'⟩, harc, h⟩ := bind_eq_ok_iff.mp h
    obtain rfl : _ = drawn := congrArg Prod.fst (pure_eq_ok_iff.mp h)
    exact .inr (arc_ne_close harc)
  case h_9 =>
    -- A closing.
    obtain rfl : _ = drawn := congrArg Prod.fst (pure_eq_ok_iff.mp h)
    exact .inl ⟨rfl, rfl⟩
  case h_10 => cases h
  -- Every other command reads at most three points and draws one movement.
  all_goals
    repeat
      obtain ⟨⟨_, _⟩, -, h⟩ := bind_eq_ok_iff.mp h
    obtain rfl : _ = drawn := congrArg Prod.fst (pure_eq_ok_iff.mp h)
    exact .inr (by simp)

/-- What follows a command goes on with a move where the pen owes one. -/
theorem separated_of_segment {pen pen' : Pen α} {command : Char} {cs rest : List Char}
    {drawn more : Path α} (h : (segment pen command).run cs = .ok ((drawn, pen'), rest))
    (hbegun : pen'.reopening.isSome = true → more.Begun) (hmore : more.Separated) :
    (pen.reopening.isSome = true → (drawn ++ more).Begun) ∧ (drawn ++ more).Separated := by
  rw [segment] at h
  split at h
  · -- A move begins a figure of its own.
    obtain ⟨⟨p, rest'⟩, -, hpure⟩ := bind_eq_ok_iff.mp h
    cases hpure
    exact ⟨fun _ => by simp [Begun], separated_cons_iff.mpr ⟨by simp, hmore⟩⟩
  · split at h
    · cases h
    · obtain ⟨⟨⟨figure, pen''⟩, rest'⟩, hdraw, hpure⟩ := bind_eq_ok_iff.mp h
      cases hpure
      have hfigure : (figure ++ more).Separated := by
        rcases closesOrDraws_of_draw hdraw with ⟨rfl, hopen⟩ | hopen
        · exact separated_cons_iff.mpr ⟨fun _ => hbegun hopen, hmore⟩
        · exact hmore.append_of_not_close hopen
      rw [List.append_assoc]
      cases pen.reopening with
      | none => exact ⟨by simp, hfigure⟩
      | some start => exact ⟨fun _ => by simp [Begun], separated_cons_iff.mpr ⟨by simp, hfigure⟩⟩

theorem separated_of_segments {count : Nat} {pen : Pen α} {cs : List Char} {path : Path α}
    (h : segments count pen cs = .ok path) :
    (pen.reopening.isSome = true → path.Begun) ∧ path.Separated := by
  induction count generalizing pen cs path with
  | zero =>
    cases h
    exact ⟨fun _ => by simp [Begun], separated_nil⟩
  | succ count ih =>
    rw [segments] at h
    split at h
    · cases h
      exact ⟨fun _ => by simp [Begun], separated_nil⟩
    · next command rest hcommand =>
      obtain ⟨⟨⟨drawn, pen'⟩, rest'⟩, hsegment, h⟩ := bind_eq_ok_iff.mp h
      obtain ⟨more, hmore, hpure⟩ := bind_eq_ok_iff.mp h
      obtain rfl := pure_eq_ok_iff.mp hpure
      obtain ⟨hbegun, hseparated⟩ := ih hmore
      exact separated_of_segment hsegment hbegun hseparated

end Path.Reader

/-- Every closing that was read ends the path or is followed by a move. -/
theorem Path.separated_of_read {data : String} {path : Path α} (h : Path.read data = .ok path) :
    path.Separated := by
  rw [Path.read] at h
  split at h
  · cases h
    exact separated_nil
  · exact (Reader.separated_of_segments (mapError_eq_ok_iff.mp h)).2

/-- Glyphs given by path data begin with a move and go on with one behind every closing. -/
theorem GlyphSource.begun_separated_drawn (glyphs : List (Char × String)) (ascender unitsPerEm : α)
    {c : Char} {fontSize : α} {glyph : Glyph α}
    (h : drawn glyphs ascender unitsPerEm c fontSize = .ok glyph) :
    glyph.path.Begun ∧ glyph.path.Separated := by
  rw [drawn] at h
  split at h
  · cases h
  · obtain ⟨path, hread, hpure⟩ := bind_eq_ok_iff.mp h
    obtain rfl := pure_eq_ok_iff.mp hpure
    have hread := mapError_eq_ok_iff.mp hread
    exact ⟨(Path.begun_of_read hread).mapPoints _, (Path.separated_of_read hread).mapPoints _⟩

end Ideograph
