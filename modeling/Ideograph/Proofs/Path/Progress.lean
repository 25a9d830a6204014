import Mathlib.Data.List.TakeDrop
import Mathlib.Data.Option.Basic
import Ideograph.Path.Reader
import Ideograph.Proofs.Outcome

/-! # Progress in path data

A number takes a digit at least, and every command takes a letter or the arguments of a number. So
the length of the data bounds the number of its commands, and a greater bound reads the same.
-/

namespace Ideograph

open Number

namespace Path

section Take

variable {cs rest : List Char}

theorem length_span (p : Char → Bool) (cs : List Char) :
    (cs.span p).1.length + (cs.span p).2.length = cs.length := by
  rw [List.span_eq_takeWhile_dropWhile, ← List.length_append, List.takeWhile_append_dropWhile]

theorem length_takeSign_le (cs : List Char) : (Decimal.takeSign cs).2.length ≤ cs.length := by
  unfold Decimal.takeSign
  split <;> simp

theorem length_takeMantissa_le (cs : List Char) :
    (Decimal.takeMantissa cs).1.length + (Decimal.takeMantissa cs).2.1.length +
      (Decimal.takeMantissa cs).2.2.length ≤ cs.length := by
  have hwhole := length_span Char.isDigit cs
  unfold Decimal.takeMantissa
  dsimp only
  split
  · next more heq =>
    have hfraction := length_span Char.isDigit more
    rw [heq, List.length_cons] at hwhole
    dsimp only
    omega
  · dsimp only [List.length_nil]
    omega

theorem length_takeExponent_le {n : Int} (h : Decimal.takeExponent cs = some (n, rest)) :
    rest.length ≤ cs.length := by
  cases cs with
  | nil =>
    cases h
    exact Nat.le_refl _
  | cons c cs =>
    have hsign := length_takeSign_le cs
    have hdigits := length_span Char.isDigit (Decimal.takeSign cs).2
    simp only [Decimal.takeExponent] at h
    split at h
    · split at h
      · cases h
      · cases h
        rw [List.length_cons]
        omega
    · cases h
      exact Nat.le_refl _

/-- A number has a digit at least. -/
theorem length_lt_of_take {d : Decimal} (h : Decimal.take cs = some (d, rest)) :
    rest.length < cs.length := by
  have hsign := length_takeSign_le cs
  have hmantissa := length_takeMantissa_le (Decimal.takeSign cs).2
  unfold Decimal.take at h
  simp only [Option.bind_eq_bind, Option.bind_eq_some_iff] at h
  obtain ⟨⟨n, more⟩, hexponent, _, hdigits, heq⟩ := h
  have hmore : more.length ≤ (Decimal.takeMantissa (Decimal.takeSign cs).2).2.2.length :=
    length_takeExponent_le hexponent
  have hpos : 0 < (Decimal.takeMantissa (Decimal.takeSign cs).2).1.length +
      (Decimal.takeMantissa (Decimal.takeSign cs).2).2.1.length := by
    by_contra hzero
    have hwhole := List.length_eq_zero_iff.mp (show
      (Decimal.takeMantissa (Decimal.takeSign cs).2).1.length = 0 by omega)
    have hfraction := List.length_eq_zero_iff.mp (show
      (Decimal.takeMantissa (Decimal.takeSign cs).2).2.1.length = 0 by omega)
    rw [hwhole, hfraction] at hdigits
    cases hdigits
  obtain rfl : more = rest := congrArg Prod.snd (Option.some.inj heq)
  omega

end Take

namespace Reader

variable {β γ : Type}

theorem run_flag (cs : List Char) : flag.run cs =
    match skipSpace cs with
    | [] => .error .unexpectedEnd
    | '0' :: rest => .ok (false, rest)
    | '1' :: rest => .ok (true, rest)
    | _ => .error .notANumber := by
  unfold flag
  simp only [StateT.run_bind, StateT.run_get]
  change StateT.run (match skipSpace cs with
    | [] => _ | '0' :: rest => _ | '1' :: rest => _ | _ => _) _ = _
  split <;> rfl

theorem run_number {α : Type} [Scalar α] (cs : List Char) : (number : Reader α).run cs =
    if (skipSpace cs).isEmpty then .error .unexpectedEnd
    else match Decimal.take (skipSpace cs) with
      | some (d, rest) => .ok (Scalar.ofDecimal d, rest)
      | none => .error .notANumber := by
  rcases hcs : skipSpace cs with _ | ⟨c, more⟩
  · simp [number, hcs]
    rfl
  · rcases htake : Decimal.take (c :: more) with _ | ⟨d, rest⟩
    · simp [number, hcs, htake]
      rfl
    · simp [number, hcs, htake]
      rfl

/-- A reader that takes `n` characters at least, and whose result has a property. -/
def Yields (n : Nat) (P : β → Prop) (r : Reader β) : Prop :=
  ∀ ⦃cs b rest⦄, r.run cs = .ok (b, rest) → rest.length + n ≤ cs.length ∧ P b

section Yields

variable {m n : Nat} {P : β → Prop} {Q : γ → Prop}

theorem yields_pure {b : β} (h : P b) : Yields 0 P (pure b) := by
  intro cs b' rest heq
  cases heq
  exact ⟨Nat.le_refl _, h⟩

theorem yields_throw (fault : ReadFault) : Yields n P (throw fault : Reader β) :=
  nofun

theorem Yields.bind {r : Reader β} {k : β → Reader γ} (hr : Yields n P r)
    (hk : ∀ b, P b → Yields 0 Q (k b)) : Yields n Q (r >>= k) := by
  intro cs c rest h
  obtain ⟨⟨b, more⟩, hb, hc⟩ := bind_eq_ok_iff.mp h
  obtain ⟨hlen, hP⟩ := hr hb
  obtain ⟨hlen', hQ⟩ := hk b hP hc
  exact ⟨by omega, hQ⟩

theorem Yields.mono {r : Reader β} (h : Yields n P r) (hle : m ≤ n) : Yields m P r := by
  intro cs b rest heq
  obtain ⟨hlen, hP⟩ := h heq
  exact ⟨by omega, hP⟩

theorem Yields.weaken {r : Reader β} (h : Yields n P r) : Yields 0 P r :=
  h.mono (Nat.zero_le n)

theorem length_skipSpace_le (cs : List Char) : (skipSpace cs).length ≤ cs.length :=
  (List.dropWhile_suffix _).length_le

theorem yields_comma : Yields 0 (fun _ => True) comma := by
  intro cs b rest h
  have hspace := length_skipSpace_le cs
  obtain rfl : skipComma cs = rest := congrArg Prod.snd (Except.ok.inj h)
  refine ⟨?_, trivial⟩
  unfold skipComma
  split
  · next heq => rw [heq, List.length_cons] at hspace; omega
  · exact hspace

theorem yields_flag : Yields 1 (fun _ => True) flag := by
  intro cs b rest h
  have hspace := length_skipSpace_le cs
  rw [run_flag] at h
  split at h
  · cases h
  · next heq => cases h; rw [heq, List.length_cons] at hspace; exact ⟨hspace, trivial⟩
  · next heq => cases h; rw [heq, List.length_cons] at hspace; exact ⟨hspace, trivial⟩
  · cases h

variable {α : Type} [Scalar α]

theorem yields_number : Yields 1 (fun _ => True) (number : Reader α) := by
  intro cs x rest h
  have hspace := length_skipSpace_le cs
  rw [run_number] at h
  split at h
  · cases h
  · split at h
    · next heq =>
      cases h
      have hlt := length_lt_of_take heq
      exact ⟨by omega, trivial⟩
    · cases h

theorem yields_argument : Yields 1 (fun _ => True) (argument : Reader α) :=
  yields_number.bind fun _ _ => yields_comma.bind fun _ _ => yields_pure trivial

theorem yields_pair : Yields 1 (fun _ => True) (pair : Reader (Point α)) :=
  yields_argument.bind fun _ _ => yields_argument.weaken.bind fun _ _ => yields_pure trivial

theorem yields_point (pen : Pen α) (command : Char) :
    Yields 1 (fun _ => True) (point pen command) := by
  apply yields_pair.bind
  intro p _
  split <;> exact yields_pure trivial

theorem yields_coordinate (origin : α) (command : Char) :
    Yields 1 (fun _ => True) (coordinate origin command) := by
  apply yields_argument.bind
  intro x _
  split <;> exact yields_pure trivial

theorem yields_arc (pen : Pen α) (command : Char) :
    Yields 1 (fun _ => True) (arc pen command) := by
  apply yields_pair.bind
  intro radii _
  apply yields_argument.weaken.bind
  intro rotation _
  apply yields_flag.weaken.bind
  intro large _
  apply yields_comma.bind
  intro _ _
  apply yields_flag.weaken.bind
  intro sweep _
  apply yields_comma.bind
  intro _ _
  exact (yields_point pen command).weaken.bind fun p _ => yields_pure trivial

end Yields

end Reader

section Repeats

variable {α : Type}

/-- A pen whose command takes arguments, so that arguments alone may repeat it. -/
def Pen.Repeats (pen : Pen α) : Prop :=
  ∀ c ∈ pen.command, c.toUpper ≠ 'Z'

theorem Pen.repeats_initial [Scalar α] : (Pen.initial : Pen α).Repeats :=
  nofun

theorem Pen.repeats_advance {command : Char} (h : command.toUpper ≠ 'Z') (pen : Pen α)
    (control p : Point α) : (pen.advance command control p).Repeats := by
  intro c hc
  obtain rfl := Option.some.inj hc
  exact h

end Repeats

namespace Reader

variable {α : Type} [Scalar α] {pen : Pen α} {command : Char}

/-- Every command but a closing takes a character at least, and none leaves a closing behind that
arguments could repeat. -/
theorem yields_draw {n : Nat} (hn : n ≤ 1) (hz : command.toUpper = 'Z' → n = 0)
    (h : pen.Repeats) : Yields n (fun drawn => drawn.2.Repeats) (draw pen command) := by
  have hpoint := (yields_point pen command).mono hn
  have hcoordinate (origin : α) := (yields_coordinate origin command).mono hn
  have hadvance (hcommand : command.toUpper ≠ 'Z') (c p : Point α) (path : Path α) :
      Yields 0 (fun drawn : Path α × Pen α => drawn.2.Repeats)
        (pure (path, pen.advance command c p)) :=
    yields_pure (Pen.repeats_advance hcommand pen c p)
  unfold draw
  split
  · next heq => exact hpoint.bind fun p _ => hadvance (by rw [heq]; decide) _ _ _
  · next heq => exact (hcoordinate _).bind fun x _ => hadvance (by rw [heq]; decide) _ _ _
  · next heq => exact (hcoordinate _).bind fun y _ => hadvance (by rw [heq]; decide) _ _ _
  · next heq =>
    exact hpoint.bind fun c _ => hpoint.weaken.bind fun p _ => hadvance (by rw [heq]; decide) _ _ _
  · next heq => exact hpoint.bind fun p _ => hadvance (by rw [heq]; decide) _ _ _
  · next heq =>
    exact hpoint.bind fun c₁ _ => hpoint.weaken.bind fun c₂ _ => hpoint.weaken.bind fun p _ =>
      hadvance (by rw [heq]; decide) _ _ _
  · next heq =>
    exact hpoint.bind fun c₂ _ => hpoint.weaken.bind fun p _ =>
      hadvance (by rw [heq]; decide) _ _ _
  · next heq =>
    exact ((yields_arc pen command).mono hn).bind fun drawn _ =>
      hadvance (by rw [heq]; decide) _ _ _
  · next heq =>
    -- A closing takes nothing and keeps the command before it.
    rw [hz heq]
    exact yields_pure h
  · exact yields_throw _

theorem yields_segment {n : Nat} (hn : n ≤ 1) (hz : command.toUpper = 'Z' → n = 0)
    (h : pen.Repeats) : Yields n (fun drawn => drawn.2.Repeats) (segment pen command) := by
  unfold segment
  split
  · apply ((yields_point pen command).mono hn).bind
    intro p _
    refine yields_pure (Pen.repeats_advance ?_ pen p p)
    split <;> decide
  · split
    · exact yields_throw _
    · refine (yields_draw hn hz ?_).bind fun drawn hdrawn => yields_pure hdrawn
      exact h

/-- What is left behind a command is shorter than what stood in front of it. -/
theorem length_lt_of_segment {cs rest rest' : List Char} {drawn : Path α} {pen' : Pen α}
    (h : pen.Repeats) (hnext : nextCommand pen.command cs = some (command, rest))
    (hsegment : (segment pen command).run rest = .ok ((drawn, pen'), rest')) :
    rest'.length < cs.length ∧ pen'.Repeats := by
  have hspace := length_skipSpace_le cs
  unfold nextCommand at hnext
  split at hnext
  · cases hnext
  · next c more heq =>
    rw [heq, List.length_cons] at hspace
    split at hnext
    · -- The letter is a character that is taken.
      cases hnext
      obtain ⟨hlen, hrepeats⟩ := yields_segment (Nat.zero_le 1) (fun _ => rfl) h hsegment
      exact ⟨by omega, hrepeats⟩
    · split at hnext
      · -- The command is repeated, and it takes an argument.
        obtain ⟨last, hlast, heq⟩ := Option.map_eq_some_iff.mp hnext
        cases heq
        obtain ⟨hlen, hrepeats⟩ := yields_segment (Nat.le_refl 1)
          (fun hz => absurd hz (h _ hlast)) h hsegment
        rw [List.length_cons] at hlen
        exact ⟨by omega, hrepeats⟩
      · cases hnext

/-- The length of the data is as good a bound for the number of commands as any greater one. -/
theorem segments_eq_of_le {count count' : Nat} {cs : List Char} (hcs : cs.length ≤ count)
    (hle : count ≤ count') (h : pen.Repeats) : segments count' pen cs = segments count pen cs := by
  induction count generalizing count' pen cs with
  | zero =>
    obtain rfl := List.eq_nil_of_length_eq_zero (Nat.le_zero.mp hcs)
    cases count' <;> rfl
  | succ count ih =>
    obtain ⟨count', rfl⟩ : ∃ k, count' = k + 1 := ⟨count' - 1, by omega⟩
    unfold segments
    rcases hnext : nextCommand pen.command cs with _ | ⟨command, rest⟩
    · rfl
    · rcases hsegment : (segment pen command).run rest with fault | ⟨⟨drawn, pen'⟩, rest'⟩
      · simp [hsegment]
      · obtain ⟨hlt, hrepeats⟩ := length_lt_of_segment h hnext hsegment
        have hrest := ih (show rest'.length ≤ count by omega) (Nat.le_of_succ_le_succ hle) hrepeats
        simp [hsegment, hrest]

end Reader

end Path

end Ideograph
