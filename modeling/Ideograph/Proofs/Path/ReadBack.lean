import Ideograph.Path.Reader
import Ideograph.Path.Writer
import Ideograph.Proofs.Number.Written
import Ideograph.Proofs.Outcome

/-! # Path data read back

What was written is read back movement by movement, every coordinate from its own text. Where a
closed figure is followed by anything but a move, the reader adds the move to its start.
-/

namespace Ideograph

open Number

variable {α : Type}

namespace Path

/-- A path that draws nothing before its first move. -/
def Begun (path : Path α) : Prop :=
  ∀ e ∈ path.head?, ∃ p, e = .moveTo p

theorem Begun.mapPoints {β : Type} {path : Path α} (h : path.Begun) (f : Point α → Point β) :
    (path.mapPoints f).Begun := by
  intro e he
  rw [Path.mapPoints, List.head?_map] at he
  obtain ⟨e', he', rfl⟩ := Option.map_eq_some_iff.mp he
  obtain ⟨q, rfl⟩ := h e' he'
  exact ⟨f q, rfl⟩

/-- The move to the start of a closed figure, in front of anything but a move. -/
def reopening (start : Point α) : Path α → Path α
  | [] => []
  | .moveTo _ :: _ => []
  | _ :: _ => [.moveTo start]

/-- The same movements, with a move wherever a closed figure goes on. -/
def reopened (start : Point α) : Path α → Path α
  | [] => []
  | .moveTo p :: rest => .moveTo p :: reopened p rest
  | .close :: rest => .close :: (reopening start rest ++ reopened start rest)
  | e :: rest => e :: reopened start rest

namespace Pen

/-- The pen behind a movement. -/
def after (pen : Pen α) : Element α → Pen α
  | .moveTo p => { pen.advance 'L' p p with start := p }
  | .lineTo p => pen.advance 'L' p p
  | .quadTo c p => pen.advance 'Q' c p
  | .curveTo _ c p => pen.advance 'C' c p
  | .close => { pen with current := pen.start, reopening := some pen.start }

/-- The move that the pen owes to a movement. -/
def owed (pen : Pen α) (e : Element α) : Path α :=
  if e.letter = 'M' then [] else pen.reopening.toList.map Element.moveTo

/-- What the pen draws for movements. -/
def replay (pen : Pen α) : Path α → Path α
  | [] => []
  | e :: rest => pen.owed e ++ e :: (pen.after e).replay rest

theorem after_reopening (pen : Pen α) (reopening : Option (Point α)) (e : Element α) :
    after { pen with reopening := reopening } e = pen.after e := by
  cases e <;> rfl

theorem isFirst_after {pen : Pen α} {e : Element α} (h : pen.isFirst = true → e.letter = 'M') :
    (pen.after e).isFirst = false := by
  cases e with
  | close => exact Bool.eq_false_iff.mpr fun hpen => absurd (h hpen) (by simp [Element.letter])
  | _ => rfl

theorem replay_eq (pen : Pen α) (path : Path α) :
    pen.replay path = pen.reopening.elim [] (Path.reopening · path) ++ reopened pen.start path := by
  induction path generalizing pen with
  | nil => cases h : pen.reopening <;> rfl
  | cons e path ih =>
    rw [replay, ih]
    cases e with
    | _ => cases h : pen.reopening <;> simp [owed, after, advance, Element.letter,
        Path.reopening, reopened, h]

end Pen

end Path

theorem Element.letter_eq_move_iff {e : Element α} : e.letter = 'M' ↔ ∃ p, e = .moveTo p := by
  cases e <;> simp [letter]

variable [Scalar α]

/-- A coordinate as it is read back from its text. -/
def reread (places : Nat) (x : α) : Except ReadFault α :=
  match Scalar.reread? places x with
  | some y => .ok y
  | none => .error .notANumber

def Point.reread (places : Nat) (p : Point α) : Except ReadFault (Point α) := do
  return ⟨← Ideograph.reread places p.x, ← Ideograph.reread places p.y⟩

namespace Element

def reread (places : Nat) : Element α → Except ReadFault (Element α)
  | moveTo p => do return moveTo (← p.reread places)
  | lineTo p => do return lineTo (← p.reread places)
  | quadTo c p => do return quadTo (← c.reread places) (← p.reread places)
  | curveTo c₁ c₂ p => do
    return curveTo (← c₁.reread places) (← c₂.reread places) (← p.reread places)
  | close => return close

theorem letter_of_reread {places : Nat} {e e' : Element α} (h : e.reread places = .ok e') :
    e'.letter = e.letter := by
  cases e with
  | moveTo p | lineTo p =>
    obtain ⟨p', -, h⟩ := bind_eq_ok_iff.mp h
    rw [← pure_eq_ok_iff.mp h]
    rfl
  | quadTo c p =>
    obtain ⟨c', -, h⟩ := bind_eq_ok_iff.mp h
    obtain ⟨p', -, h⟩ := bind_eq_ok_iff.mp h
    rw [← pure_eq_ok_iff.mp h]
    rfl
  | curveTo c₁ c₂ p =>
    obtain ⟨c₁', -, h⟩ := bind_eq_ok_iff.mp h
    obtain ⟨c₂', -, h⟩ := bind_eq_ok_iff.mp h
    obtain ⟨p', -, h⟩ := bind_eq_ok_iff.mp h
    rw [← pure_eq_ok_iff.mp h]
    rfl
  | close => rw [← pure_eq_ok_iff.mp h]

end Element

namespace Path

namespace Reader

/-- Path data that is at its end or goes on with a command. -/
def AtCommand (cs : List Char) : Prop :=
  ∀ c ∈ cs.head?, c ∈ ['M', 'L', 'Q', 'C', 'Z']

/-- The text of a movement behind its letter. -/
def arguments (places : Nat) (e : Element α) : List Char :=
  List.intercalate [' '] (e.points.map (Point.write places))

theorem atCommand_write (places : Nat) (path : Path α) :
    AtCommand (path.flatMap (Element.write places)) := by
  intro c hc
  cases path with
  | nil => simp at hc
  | cons e path =>
    obtain rfl : e.letter = c := by simpa [Element.write] using hc
    cases e <;> simp [Element.letter]

theorem nextCommand_write (last : Option Char) (places : Nat) (e : Element α) (rest : List Char) :
    nextCommand last (e.write places ++ rest) = some (e.letter, arguments places e ++ rest) := by
  cases e <;> rfl

section Text

variable {cs rest : List Char}

theorem AtCommand.stops (h : AtCommand cs) : Decimal.Stops cs := by
  intro c hc
  have hcommand := h c hc
  simp only [List.mem_cons, List.not_mem_nil, or_false] at hcommand
  rcases hcommand with rfl | rfl | rfl | rfl | rfl <;> decide

theorem AtCommand.skipComma (h : AtCommand cs) : skipComma cs = cs := by
  cases cs with
  | nil => rfl
  | cons c cs =>
    have hcommand := h c rfl
    simp only [List.mem_cons, List.not_mem_nil, or_false] at hcommand
    rcases hcommand with rfl | rfl | rfl | rfl | rfl <;> rfl

theorem stops_space (cs : List Char) : Decimal.Stops (' ' :: cs) := by
  intro c hc
  obtain rfl : ' ' = c := by simpa using hc
  decide

theorem isSpace_of_delimited {c : Char} (h : c = '-' ∨ c.isAlphanum) :
    isSpace c = false ∧ c ≠ ',' := by
  refine ⟨?_, ?_⟩
  · by_contra hspace
    simp only [isSpace, Bool.not_eq_false, Bool.or_eq_true, beq_iff_eq] at hspace
    rcases hspace with (((rfl | rfl) | rfl) | rfl) | rfl <;> revert h <;> decide
  · rintro rfl
    revert h
    decide

theorem skipSpace_delimited (h : Decimal.Delimited cs) (rest : List Char) :
    skipSpace (cs ++ rest) = cs ++ rest := by
  obtain ⟨c, more, rfl, hc⟩ := h.head
  simp [skipSpace, isSpace_of_delimited hc]

theorem skipComma_space (h : Decimal.Delimited cs) (rest : List Char) :
    skipComma (' ' :: (cs ++ rest)) = cs ++ rest := by
  obtain ⟨c, more, rfl, hc⟩ := h.head
  obtain ⟨hspace, hcomma⟩ := isSpace_of_delimited hc
  have hskip : skipSpace (' ' :: (c :: more ++ rest)) = c :: (more ++ rest) := by
    simp [skipSpace, hspace, show isSpace ' ' = true from rfl]
  rw [skipComma, hskip]
  split
  · next heq => exact absurd (List.cons.inj heq).1 hcomma
  · rfl

end Text

variable [DelimitedText α] {rest : List Char}

theorem number_text (places : Nat) (x : α) (h : Decimal.Stops rest) :
    (number : Reader α).run (Scalar.text places x ++ rest) = do
      return (← reread places x, rest) := by
  have htext := DelimitedText.delimited_text places x
  have hne : Scalar.text places x ≠ [] := by
    obtain ⟨c, more, hcons, -⟩ := htext.head
    simp [hcons]
  have htake := htext.take_append rest h
  rcases hread : Decimal.take (Scalar.text places x) with _ | ⟨d, after⟩
  · simp [number, skipSpace_delimited htext, hne, htake, hread, reread, Scalar.reread?]
    rfl
  · simp [number, skipSpace_delimited htext, hne, htake, hread, reread, Scalar.reread?]
    rfl

theorem argument_text (places : Nat) (x : α) (h : Decimal.Stops rest) :
    (argument : Reader α).run (Scalar.text places x ++ rest) = do
      return (← reread places x, skipComma rest) := by
  simp [argument, comma, number_text places x h]

theorem pair_write (places : Nat) (p : Point α) (h : Decimal.Stops rest) :
    (pair : Reader (Point α)).run (p.write places ++ rest) = do
      return (← p.reread places, skipComma rest) := by
  have hspace := stops_space (Scalar.text places p.y ++ rest)
  simp [pair, Point.write, Point.reread, argument_text _ _ hspace, argument_text _ _ h,
    skipComma_space (DelimitedText.delimited_text places p.y)]

theorem point_write (pen : Pen α) (command : Char) (hcommand : command.isLower = false)
    (places : Nat) (p : Point α) (h : Decimal.Stops rest) :
    (point pen command).run (p.write places ++ rest) = do
      return (← p.reread places, skipComma rest) := by
  simp [point, hcommand, pair_write places p h]

theorem point_write_space (pen : Pen α) (command : Char) (hcommand : command.isLower = false)
    (places : Nat) (p q : Point α) (rest : List Char) :
    (point pen command).run (p.write places ++ ' ' :: (q.write places ++ rest)) = do
      return (← p.reread places, q.write places ++ rest) := by
  have hq : skipComma (' ' :: (q.write places ++ rest)) = q.write places ++ rest := by
    simpa [Point.write] using skipComma_space (DelimitedText.delimited_text places q.x)
      (' ' :: (Scalar.text places q.y ++ rest))
  rw [point_write pen command hcommand places p (stops_space _), hq]

theorem point_write_last (pen : Pen α) (command : Char) (hcommand : command.isLower = false)
    (places : Nat) (p : Point α) (h : AtCommand rest) :
    (point pen command).run (p.write places ++ rest) = do
      return (← p.reread places, rest) := by
  rw [point_write pen command hcommand places p h.stops, h.skipComma]

theorem draw_write (pen : Pen α) (places : Nat) (e : Element α) (hmove : e.letter ≠ 'M')
    (h : AtCommand rest) :
    (draw pen e.letter).run (arguments places e ++ rest) = do
      let e ← e.reread places
      return (([e], pen.after e), rest) := by
  cases e with
  | moveTo p => exact absurd rfl hmove
  | lineTo p =>
    simp [draw, arguments, Element.letter, Element.points, Element.reread, List.intercalate,
      Pen.after, point_write_last pen 'L' rfl places p h]
  | quadTo c p =>
    simp [draw, arguments, Element.letter, Element.points, Element.reread, List.intercalate,
      Pen.after, point_write_space pen 'Q' rfl places c p,
      point_write_last pen 'Q' rfl places p h]
  | curveTo c₁ c₂ p =>
    simp [draw, arguments, Element.letter, Element.points, Element.reread, List.intercalate,
      Pen.after, point_write_space pen 'C' rfl places c₁ c₂,
      point_write_space pen 'C' rfl places c₂ p,
      point_write_last pen 'C' rfl places p h]
  | close =>
    simp [draw, arguments, Element.letter, Element.points, Element.reread, List.intercalate,
      Pen.after]

theorem segment_write (pen : Pen α) (places : Nat) (e : Element α)
    (hfirst : pen.isFirst = true → e.letter = 'M') (h : AtCommand rest) :
    (segment pen e.letter).run (arguments places e ++ rest) = do
      let e' ← e.reread places
      return ((pen.owed e ++ [e'], pen.after e'), rest) := by
  by_cases hmove : e.letter = 'M'
  · obtain ⟨p, rfl⟩ := Element.letter_eq_move_iff.mp hmove
    simp [segment, arguments, Element.letter, Element.points, Element.reread, List.intercalate,
      Pen.after, Pen.owed, point_write_last pen 'M' rfl places p h]
  · have hletter : e.letter.toUpper ≠ 'M' := by
      cases e with
      | moveTo p => exact absurd rfl hmove
      | _ => simp [Element.letter]
    have hopen : ¬ pen.isFirst = true := fun hpen => hmove (hfirst hpen)
    have hdraw := draw_write { pen with reopening := none } places e hmove h
    simp only [Pen.after_reopening] at hdraw
    rw [segment, if_neg hletter, if_neg hopen]
    simp [hdraw, Pen.owed, hmove]

theorem segments_write (places : Nat) (pen : Pen α) {path : Path α}
    (hfirst : pen.isFirst = true → path.Begun) {count : Nat} (hcount : path.length ≤ count) :
    segments count pen (path.flatMap (Element.write places)) = do
      return pen.replay (← path.mapM (Element.reread places)) := by
  induction path generalizing pen count with
  | nil => cases count <;> rfl
  | cons e path ih =>
    cases count with
    | zero => simp at hcount
    | succ count =>
      have hmove : pen.isFirst = true → e.letter = 'M' :=
        fun hpen => Element.letter_eq_move_iff.mpr (hfirst hpen e rfl)
      rw [List.flatMap_cons, segments, nextCommand_write, List.mapM_cons]
      simp only [segment_write pen places e hmove (atCommand_write places path)]
      rcases hread : e.reread places with fault | e'
      · rfl
      · -- The pen goes on from the movement that was read, which is of the same kind.
        have hletter := Element.letter_of_reread hread
        have hopen : (pen.after e').isFirst = false :=
          Pen.isFirst_after fun hpen => hletter.trans (hmove hpen)
        have hrest := ih (pen.after e') (by simp [hopen]) (Nat.le_of_succ_le_succ hcount)
        simp [hrest, Pen.replay, Pen.owed, hletter]

end Reader

theorem length_le_write (places : Nat) (path : Path α) :
    path.length ≤ (path.flatMap (Element.write places)).length := by
  induction path with
  | nil => exact Nat.le_refl 0
  | cons e path ih =>
    simp only [List.length_cons, List.flatMap_cons, List.length_append, Element.write]
    omega

theorem not_all_isBlank_write (places : Nat) (e : Element α) (path : Path α) :
    ((e :: path).flatMap (Element.write places)).all Text.isBlank = false := by
  have hletter : Text.isBlank e.letter = false := by cases e <;> rfl
  simp [Element.write, hletter]

/-- What was written is read back with every coordinate read from its own text. -/
theorem read_write [DelimitedText α] (places : Nat) {path : Path α} (h : path.Begun) :
    Path.read (path.write places) =
      (do return reopened Pen.initial.start (← path.mapM (Element.reread places)) :
        Except ReadFault (Path α)).mapError (Fault.unreadable · (path.write places)) := by
  have hsegments := Reader.segments_write places Pen.initial (fun _ => h)
    (length_le_write places path)
  rw [Path.read]
  cases path with
  | nil => rfl
  | cons e path =>
    simp only [Path.write, String.toList_ofList, not_all_isBlank_write, hsegments, Pen.replay_eq]
    rfl

theorem begun_of_segments {count : Nat} {pen : Pen α} {cs : List Char} {path : Path α}
    (hfirst : pen.isFirst = true) (h : Reader.segments count pen cs = .ok path) : path.Begun := by
  cases count with
  | zero =>
    cases h
    simp [Begun]
  | succ count =>
    rw [Reader.segments] at h
    split at h
    · cases h
      simp [Begun]
    · next command rest hcommand =>
      obtain ⟨⟨⟨drawn, pen'⟩, rest'⟩, hsegment, h⟩ := bind_eq_ok_iff.mp h
      obtain ⟨more, -, hpure⟩ := bind_eq_ok_iff.mp h
      obtain rfl := pure_eq_ok_iff.mp hpure
      rw [Reader.segment] at hsegment
      split at hsegment
      · obtain ⟨⟨p, rest''⟩, hpoint, hpure⟩ := bind_eq_ok_iff.mp hsegment
        cases hpure
        simp [Begun]
      · cases hsegment

/-- Path data that can be read draws nothing before its first move. -/
theorem begun_of_read {data : String} {path : Path α} (h : Path.read data = .ok path) :
    path.Begun := by
  rw [Path.read] at h
  split at h
  · cases h
    simp [Begun]
  · exact begun_of_segments rfl (mapError_eq_ok_iff.mp h)

end Path

section Reread

variable {places : Nat}

theorem exists_reread_iff {x : α} :
    (∃ y, reread places x = .ok y) ↔ (Scalar.reread? places x).isSome = true := by
  rw [reread]
  rcases Scalar.reread? places x with _ | y
  · simp
  · simp

theorem Point.exists_reread_iff {p : Point α} :
    (∃ p', p.reread places = .ok p') ↔
      (Scalar.reread? places p.x).isSome = true ∧ (Scalar.reread? places p.y).isSome = true := by
  rw [← Ideograph.exists_reread_iff, ← Ideograph.exists_reread_iff]
  simp only [reread, bind_eq_ok_iff, pure_eq_ok_iff]
  constructor
  · rintro ⟨_, x, hx, y, hy, -⟩
    exact ⟨⟨x, hx⟩, y, hy⟩
  · rintro ⟨⟨x, hx⟩, y, hy⟩
    exact ⟨_, x, hx, y, hy, rfl⟩

theorem Element.exists_reread_iff {e : Element α} :
    (∃ e', e.reread places = .ok e') ↔ ∀ p ∈ e.points, ∃ p', p.reread places = .ok p' := by
  cases e with
  | moveTo p | lineTo p => simp [reread, points, map_eq_ok_iff]
  | quadTo c p => simp [reread, points, bind_eq_ok_iff, map_eq_ok_iff]
  | curveTo c₁ c₂ p => simp [reread, points, bind_eq_ok_iff, map_eq_ok_iff]
  | close => simp [reread, points, pure_eq_ok_iff]

/-- What was written can be read back exactly if every coordinate can. -/
theorem Path.exists_read_write_iff [DelimitedText α] {path : Path α} (h : path.Begun) :
    (∃ path' : Path α, Path.read (path.write places) = .ok path') ↔
      ∀ e ∈ path, ∀ p ∈ e.points, (Scalar.reread? places p.x).isSome = true ∧
        (Scalar.reread? places p.y).isSome = true := by
  have hread : (∃ path' : Path α, Path.read (path.write places) = .ok path') ↔
      ∃ path', path.mapM (Element.reread places) = .ok path' := by
    simp [read_write places h, map_eq_ok_iff]
  rw [hread, exists_mapM_eq_ok_iff]
  simp only [Element.exists_reread_iff, Point.exists_reread_iff]

end Reread

namespace Path

/-- A path whose coordinates stay finite when they are multiplied to be rounded. -/
def StaysFinite (places : Nat) (path : Path Double) : Prop :=
  ∀ e ∈ path, ∀ p ∈ e.points, (p.x * decimalFactor places).isFinite = true ∧
    (p.y * decimalFactor places).isFinite = true

theorem exists_read_write_iff_staysFinite (places : Nat) {path : Path Double} (h : path.Begun) :
    (∃ path' : Path Double, Path.read (path.write places) = .ok path') ↔
      path.StaysFinite places := by
  simp only [exists_read_write_iff h, StaysFinite, isSome_reread?_iff]

end Path

end Ideograph
