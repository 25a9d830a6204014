import Ideograph.Proofs.Path.ReadBack

/-! # A path through its text

A path that is written and read is the same path with every coordinate replaced by the number that
its text denotes. Only behind a closed figure that goes on there is one movement more, the move to
the start of the figure.
-/

namespace Ideograph

open Number

section Map

variable {α β : Type} (f : Point α → Point β) (e : Element α)

theorem Element.points_map : (e.map f).points = e.points.map f := by
  cases e <;> rfl

theorem Element.letter_map : (e.map f).letter = e.letter := by
  cases e <;> rfl

end Map

section Points

variable {α : Type} [Scalar α] (P : Point α → Prop) (data : String)

/-- Path data all of whose points have a property, control points included. -/
def Path.ForallPoints : Prop :=
  ∀ path : Path α, Path.read data = .ok path → ∀ e ∈ path, ∀ p ∈ e.points, P p

instance Path.instDecidableForallPoints [DecidablePred P] : Decidable (ForallPoints P data) :=
  match h : (Path.read data : Except Fault (Path α)) with
  | .ok path =>
    decidable_of_iff (∀ e ∈ path, ∀ p ∈ e.points, P p)
      ⟨fun hall path' hread => by rwa [← Except.ok.inj (h.symm.trans hread)],
        fun hall => hall path h⟩
  | .error _ => isTrue fun _ hread => nomatch h.symm.trans hread

end Points

namespace Path

variable {α β : Type}

/-- Every closing ends the path or is followed by a move. -/
def Separated (path : Path α) : Prop :=
  ∀ before after, path = before ++ .close :: after → Begun after

theorem Separated.tail {e : Element α} {path : Path α} (h : Separated (e :: path)) :
    path.Separated := by
  rintro before after rfl
  exact h (e :: before) after rfl

theorem reopening_of_begun {path : Path α} (h : path.Begun) (start : Point α) :
    reopening start path = [] := by
  cases path with
  | nil => rfl
  | cons e path =>
    obtain ⟨p, rfl⟩ := h e rfl
    rfl

theorem reopened_of_separated {path : Path α} (h : path.Separated) (start : Point α) :
    reopened start path = path := by
  induction path generalizing start with
  | nil => rfl
  | cons e path ih =>
    cases e with
    | close => rw [reopened, reopening_of_begun (h [] path rfl), ih h.tail, List.nil_append]
    | _ => simp [reopened, ih h.tail]

/-- The start is that of the first move, where nothing is drawn before it. -/
theorem reopened_of_begun {path : Path α} (h : path.Begun) (start start' : Point α) :
    reopened start path = reopened start' path := by
  cases path with
  | nil => rfl
  | cons e path =>
    obtain ⟨p, rfl⟩ := h e rfl
    rfl

theorem mapPoints_reopened (f : Point α → Point β) (start : Point α) (path : Path α) :
    (reopened start path).mapPoints f = reopened (f start) (path.mapPoints f) := by
  induction path generalizing start with
  | nil => rfl
  | cons e path ih =>
    have hreopening : ∀ start, mapPoints f (reopening start path) =
        reopening (f start) (mapPoints f path) := by
      intro start
      rcases path with _ | ⟨_ | _ | _ | _ | _, _⟩ <;> rfl
    rw [mapPoints] at ih hreopening
    cases e with
    | _ => simp_all [reopened, mapPoints, Element.map]

theorem mapPoints_id (path : Path α) : path.mapPoints id = path := by
  refine (List.map_congr_left fun e _ => ?_).trans (List.map_id path)
  cases e <;> rfl

theorem map_letter_mapPoints (f : Point α → Point β) (path : Path α) :
    (path.mapPoints f).map Element.letter = path.map Element.letter := by
  rw [mapPoints, List.map_map]
  exact List.map_congr_left fun e _ => Element.letter_map f e

/-- Points that are written alike make paths that are written alike. -/
theorem write_mapPoints [Scalar α] {places : Nat} {path : Path α} {f : Point α → Point α}
    (h : ∀ e ∈ path, ∀ p ∈ e.points, (f p).write places = p.write places) :
    (path.mapPoints f).write places = path.write places := by
  rw [write, write, mapPoints, List.flatMap_map]
  congr 1
  refine List.flatMap_congr fun e he => ?_
  rw [Element.write, Element.write, Element.letter_map, Element.points_map, List.map_map]
  congr 2
  exact List.map_congr_left fun p hp => h e he p hp

end Path

section Reread

variable {α : Type} [Scalar α] {places : Nat} {f : α → α}

theorem Point.reread_eq {p : Point α} (hx : Scalar.reread? places p.x = some (f p.x))
    (hy : Scalar.reread? places p.y = some (f p.y)) : p.reread places = .ok (p.map f) := by
  simp only [Point.reread, Ideograph.reread, hx, hy]
  rfl

theorem Element.reread_eq {e : Element α} {g : Point α → Point α}
    (h : ∀ p ∈ e.points, p.reread places = .ok (g p)) : e.reread places = .ok (e.map g) := by
  cases e with
  | moveTo p | lineTo p => simp_all [points, reread, map]
  | quadTo c p => simp_all [points, reread, map]
  | curveTo c₁ c₂ p => simp_all [points, reread, map]
  | close => rfl

/-- A path whose coordinates can be read back is read back with these numbers. -/
theorem Path.read_write_eq [DelimitedText α] {path : Path α} (hbegun : path.Begun)
    (h : ∀ e ∈ path, ∀ p ∈ e.points, Scalar.reread? places p.x = some (f p.x) ∧
      Scalar.reread? places p.y = some (f p.y)) (start : Point α) :
    Path.read (path.write places) = .ok (reopened start (path.mapPoints (Point.map f))) := by
  have hreread : path.mapM (Element.reread places) = .ok (path.mapPoints (Point.map f)) := by
    rw [mapM_eq_ok_iff, mapPoints, List.forall₂_map_right_iff, List.forall₂_same]
    intro e he
    exact Element.reread_eq fun p hp => Point.reread_eq (h e he p hp).1 (h e he p hp).2
  rw [read_write places hbegun, hreread, reopened_of_begun (hbegun.mapPoints _) start]
  rfl

end Reread

/-- A path that stays finite is read back with the numbers of the texts of its coordinates, and with
a move to the start of every closed figure that goes on without one. -/
theorem Path.read_write_rewritten (places : Nat) {path : Path Double} (hbegun : path.Begun)
    (hfinite : path.StaysFinite places) :
    (∀ e ∈ path, ∀ p ∈ e.points, ∀ x ∈ [p.x, p.y],
      Binary.ofText? (String.ofList (Scalar.text places x)) = some (rewritten places x)) ∧
    (∀ start, Path.read (path.write places) =
      .ok (reopened start (path.mapPoints (Point.map (rewritten places))))) ∧
    (path.Separated → Path.read (path.write places) =
      .ok (path.mapPoints (Point.map (rewritten places)))) ∧
    (path.mapPoints (Point.map (rewritten places))).map Element.letter = path.map Element.letter ∧
    (path = [] → Path.read (path.write places) = .ok ([] : Path Double)) := by
  have hread : ∀ start, Path.read (path.write places) =
      .ok (reopened start (path.mapPoints (Point.map (rewritten places)))) :=
    read_write_eq hbegun fun e he p hp =>
      ⟨(ofText?_eq_reread? (hfinite e he p hp).1).2, (ofText?_eq_reread? (hfinite e he p hp).2).2⟩
  refine ⟨?_, hread, ?_, map_letter_mapPoints _ path, ?_⟩
  · intro e he p hp x hx
    have hcoordinate := hfinite e he p hp
    simp only [List.mem_cons, List.not_mem_nil, or_false] at hx
    rcases hx with rfl | rfl
    · exact (ofText?_eq_reread? hcoordinate.1).1
    · exact (ofText?_eq_reread? hcoordinate.2).1
  · intro hseparated
    have horigin : Point Double := ⟨0.0, 0.0⟩
    rw [hread (Point.map (rewritten places) horigin), ← mapPoints_reopened,
      reopened_of_separated hseparated]
  · rintro rfl
    exact hread ⟨0.0, 0.0⟩

/-- A closed figure that goes on with a line is reopened at its rounded start. -/
theorem Path.read_write_rewritten_reopened :
    let path : Path Double :=
      [.moveTo ⟨0.125, -0.001⟩, .lineTo ⟨3.0, 4.0⟩, .close, .lineTo ⟨1.0, 2.0⟩]
    path.Begun ∧ path.StaysFinite 2 ∧ path.write 2 = "M0.13 0L3 4ZL1 2" ∧
      Path.read (path.write 2) = .ok (reopened ⟨0.0, 0.0⟩
        (path.mapPoints (Point.map (rewritten 2)))) ∧
      reopened ⟨0.0, 0.0⟩ (path.mapPoints (Point.map (rewritten 2))) =
        [.moveTo ⟨0.13, 0.0⟩, .lineTo ⟨3.0, 4.0⟩, .close, .moveTo ⟨0.13, 0.0⟩,
          .lineTo ⟨1.0, 2.0⟩] := by
  intro path
  have hbegun : path.Begun := by simp [path, Path.Begun]
  have hfinite : path.StaysFinite 2 := by
    rw [StaysFinite]
    decide +kernel
  exact ⟨hbegun, hfinite, by decide +kernel,
    (read_write_rewritten 2 hbegun hfinite).2.1 ⟨0.0, 0.0⟩, by decide +kernel⟩

end Ideograph
