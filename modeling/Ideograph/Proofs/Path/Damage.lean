import Ideograph.Glyph.Sources
import Ideograph.Proofs.Number.Numeral
import Ideograph.Proofs.Path.Progress
import Ideograph.Render.Engine

/-! # Damaged path data

A character that path data never contains is damage. Inside the arguments of a command it is a
fault. Between two commands reading ends there without one: all that follows is dropped, and the
drawing is that of the sound part. A text without a move is dropped as a whole, unless its first
character is a letter.
-/

namespace Ideograph

open Number

/-- A character that neither continues a number nor separates or begins anything in path data. -/
def Path.Reader.isForeign (c : Char) : Bool :=
  !(isSpace c || c == ',' || c == '+' || c == '-' || c == '.' || c.isDigit || c.isAlpha)

/-- A text that begins with damage. -/
def Path.Foreign (text : List Char) : Prop :=
  text.head?.any Reader.isForeign = true

instance Path.instDecidableForeign (text : List Char) : Decidable (Foreign text) :=
  inferInstanceAs (Decidable (_ = true))

/-- The fault that is met where the data was at its end before, or else the one met earlier. -/
def ReadFault.beforeDamage : ReadFault → ReadFault
  | unexpectedEnd => notANumber
  | fault => fault

/-- The report on the data with damage behind it. -/
def Path.Fault.beforeDamage (damage : String) : Path.Fault → Path.Fault
  | unreadable fault data => unreadable fault.beforeDamage (data ++ damage)
  | reported text => reported text

namespace Path

section Lexer

variable {damage : List Char}

theorem Foreign.head (h : Foreign damage) :
    ∀ c ∈ damage.head?, Reader.isSpace c = false ∧ c ≠ ',' ∧ c ≠ '+' ∧ c ≠ '-' ∧ c ≠ '.' ∧
      c.isDigit = false ∧ c.isAlpha = false := by
  intro c hc
  unfold Foreign at h
  rw [Option.mem_def.mp hc, Option.any_some] at h
  simp only [Reader.isForeign, Bool.not_eq_true', Bool.or_eq_false_iff, beq_eq_false_iff_ne] at h
  obtain ⟨⟨⟨⟨⟨⟨hspace, hcomma⟩, hplus⟩, hminus⟩, hpoint⟩, hdigit⟩, halpha⟩ := h
  exact ⟨hspace, hcomma, hplus, hminus, hpoint, hdigit, halpha⟩

theorem Foreign.exists_cons (h : Foreign damage) : ∃ c rest, damage = c :: rest := by
  cases damage with
  | nil => cases h
  | cons c rest => exact ⟨c, rest, rfl⟩

theorem dropWhile_append_of_head {p : Char → Bool} (h : ∀ c ∈ damage.head?, p c = false)
    (cs : List Char) : (cs ++ damage).dropWhile p = cs.dropWhile p ++ damage := by
  rw [List.dropWhile_append, Numeral.dropWhile_eq_self h]
  split
  · next hempty => rw [List.isEmpty_iff.mp hempty, List.nil_append]
  · rfl

theorem takeWhile_append_of_head {p : Char → Bool} (h : ∀ c ∈ damage.head?, p c = false)
    (cs : List Char) : (cs ++ damage).takeWhile p = cs.takeWhile p := by
  have hall := List.takeWhile_append_dropWhile (p := p) (l := cs ++ damage)
  rw [dropWhile_append_of_head h, ← List.append_assoc, List.append_cancel_right_eq] at hall
  apply List.append_cancel_right
  exact hall.trans List.takeWhile_append_dropWhile.symm

theorem span_append (h : Foreign damage) (cs : List Char) :
    (cs ++ damage).span Char.isDigit =
      ((cs.span Char.isDigit).1, (cs.span Char.isDigit).2 ++ damage) := by
  have hdigit : ∀ c ∈ damage.head?, c.isDigit = false := fun c hc => (h.head c hc).2.2.2.2.2.1
  rw [List.span_eq_takeWhile_dropWhile, List.span_eq_takeWhile_dropWhile,
    takeWhile_append_of_head hdigit, dropWhile_append_of_head hdigit]

theorem takeSign_append (h : Foreign damage) (cs : List Char) :
    Decimal.takeSign (cs ++ damage) =
      ((Decimal.takeSign cs).1, (Decimal.takeSign cs).2 ++ damage) := by
  cases cs with
  | nil =>
    obtain ⟨c, rest, rfl⟩ := h.exists_cons
    obtain ⟨-, -, hplus, hminus, -⟩ := h.head c rfl
    unfold Decimal.takeSign
    split
    · next heq => exact absurd (List.cons.inj heq).1 hminus
    · next heq => exact absurd (List.cons.inj heq).1 hplus
    · rfl
  | cons c cs =>
    unfold Decimal.takeSign
    split <;> simp_all

theorem takeMantissa_append (h : Foreign damage) (cs : List Char) :
    Decimal.takeMantissa (cs ++ damage) =
      ((Decimal.takeMantissa cs).1, (Decimal.takeMantissa cs).2.1,
        (Decimal.takeMantissa cs).2.2 ++ damage) := by
  unfold Decimal.takeMantissa
  simp only [span_append h]
  rcases (cs.span Char.isDigit).2 with _ | ⟨c, rest⟩
  · obtain ⟨c, rest, rfl⟩ := h.exists_cons
    obtain ⟨-, -, -, -, hpoint, -⟩ := h.head c rfl
    simp [hpoint]
  · by_cases hpoint : c = '.'
    · subst hpoint
      simp only [List.cons_append, span_append h]
    · simp [hpoint]

theorem takeExponent_append (h : Foreign damage) (cs : List Char) :
    Decimal.takeExponent (cs ++ damage) =
      (Decimal.takeExponent cs).map fun (n, rest) => (n, rest ++ damage) := by
  cases cs with
  | nil =>
    obtain ⟨c, rest, rfl⟩ := h.exists_cons
    obtain ⟨-, -, -, -, -, -, halpha⟩ := h.head c rfl
    have hmark : ¬ (c = 'e' ∨ c = 'E') := by
      rintro (rfl | rfl)
      · exact absurd halpha (by decide)
      · exact absurd halpha (by decide)
    simp [Decimal.takeExponent, hmark]
  | cons c cs =>
    simp only [List.cons_append, Decimal.takeExponent, takeSign_append h, span_append h]
    split
    · split <;> rfl
    · rfl

/-- A number ends where damage follows, as it does at the end of the data. -/
theorem take_append (h : Foreign damage) (cs : List Char) :
    Decimal.take (cs ++ damage) =
      (Decimal.take cs).map fun (d, rest) => (d, rest ++ damage) := by
  simp only [Decimal.take, takeSign_append h, takeMantissa_append h, takeExponent_append h]
  rcases Decimal.takeExponent (Decimal.takeMantissa (Decimal.takeSign cs).2).2.2 with _ | ⟨n, rest⟩
  · rfl
  · simp only [Option.map_some, Option.bind_eq_bind, Option.bind_some, guard]
    split <;> rfl

end Lexer

namespace Reader

variable {β γ : Type}

/-- The result of reading in front of damage: what is left has the damage behind it. -/
def beforeDamage (damage : List Char) :
    Except ReadFault (β × List Char) → Except ReadFault (β × List Char)
  | .ok (b, rest) => .ok (b, rest ++ damage)
  | .error fault => .error fault.beforeDamage

/-- A reader that takes damage for the end of the data, apart from the fault that it finds there. -/
def EndsAt (damage : List Char) (r : Reader β) : Prop :=
  ∀ cs, r.run (cs ++ damage) = beforeDamage damage (r.run cs)

section EndsAt

variable {damage : List Char}

theorem endsAt_pure (b : β) : EndsAt damage (pure b) := fun _ => rfl

theorem endsAt_throw {fault : ReadFault} (h : fault.beforeDamage = fault) :
    EndsAt damage (throw fault : Reader β) := by
  intro cs
  change Except.error fault = .error fault.beforeDamage
  rw [h]

theorem EndsAt.bind {r : Reader β} {k : β → Reader γ} (hr : EndsAt damage r)
    (hk : ∀ b, EndsAt damage (k b)) : EndsAt damage (r >>= k) := by
  intro cs
  rw [StateT.run_bind, StateT.run_bind, hr cs]
  rcases r.run cs with fault | ⟨b, rest⟩
  · rfl
  · exact hk b rest

variable (h : Foreign damage)

include h

theorem skipSpace_append (cs : List Char) : skipSpace (cs ++ damage) = skipSpace cs ++ damage :=
  dropWhile_append_of_head (fun c hc => (h.head c hc).1) cs

theorem skipComma_append (cs : List Char) : skipComma (cs ++ damage) = skipComma cs ++ damage := by
  unfold skipComma
  rw [skipSpace_append h]
  rcases skipSpace cs with _ | ⟨c, rest⟩
  · obtain ⟨c, rest, rfl⟩ := h.exists_cons
    obtain ⟨-, hcomma, -⟩ := h.head c rfl
    simp [hcomma]
  · by_cases hcomma : c = ','
    · subst hcomma
      rfl
    · simp [hcomma]

theorem endsAt_comma : EndsAt damage comma := by
  intro cs
  change Except.ok ((), skipComma (cs ++ damage)) = .ok ((), skipComma cs ++ damage)
  rw [skipComma_append h]

theorem endsAt_flag : EndsAt damage flag := by
  intro cs
  rw [run_flag, run_flag, skipSpace_append h]
  rcases skipSpace cs with _ | ⟨c, rest⟩
  · obtain ⟨c, rest, rfl⟩ := h.exists_cons
    obtain ⟨-, -, -, -, -, hdigit, -⟩ := h.head c rfl
    rw [List.nil_append]
    split
    · next heq => cases heq
    · next heq => exact absurd hdigit (by rw [(List.cons.inj heq).1]; decide)
    · next heq => exact absurd hdigit (by rw [(List.cons.inj heq).1]; decide)
    · rfl
  · by_cases hzero : c = '0'
    · subst hzero
      rfl
    · by_cases hone : c = '1'
      · subst hone
        rfl
      · simp [hzero, hone, beforeDamage, ReadFault.beforeDamage]

variable {α : Type} [Scalar α]

theorem endsAt_number : EndsAt damage (number : Reader α) := by
  intro cs
  rw [run_number, run_number, skipSpace_append h]
  rcases skipSpace cs with _ | ⟨c, rest⟩
  · -- The data was at its end, and no number begins with damage.
    obtain ⟨c, rest, rfl⟩ := h.exists_cons
    have htake : Decimal.take (c :: rest) = none := take_append h []
    simp [htake, beforeDamage, ReadFault.beforeDamage]
  · rw [take_append h]
    rcases Decimal.take (c :: rest) with _ | ⟨d, more⟩ <;> rfl

theorem endsAt_argument : EndsAt damage (argument : Reader α) :=
  (endsAt_number h).bind fun _ => (endsAt_comma h).bind fun _ => endsAt_pure _

theorem endsAt_pair : EndsAt damage (pair : Reader (Point α)) :=
  (endsAt_argument h).bind fun _ => (endsAt_argument h).bind fun _ => endsAt_pure _

theorem endsAt_point (pen : Pen α) (command : Char) : EndsAt damage (point pen command) := by
  apply (endsAt_pair h).bind
  intro p
  split <;> exact endsAt_pure _

theorem endsAt_coordinate (origin : α) (command : Char) :
    EndsAt damage (coordinate origin command) := by
  apply (endsAt_argument h).bind
  intro x
  split <;> exact endsAt_pure _

theorem endsAt_arc (pen : Pen α) (command : Char) : EndsAt damage (arc pen command) := by
  apply (endsAt_pair h).bind
  intro radii
  apply (endsAt_argument h).bind
  intro rotation
  apply (endsAt_flag h).bind
  intro large
  apply (endsAt_comma h).bind
  intro _
  apply (endsAt_flag h).bind
  intro sweep
  apply (endsAt_comma h).bind
  intro _
  exact (endsAt_point h pen command).bind fun p => endsAt_pure _

theorem endsAt_draw (pen : Pen α) (command : Char) : EndsAt damage (draw pen command) := by
  have hpoint := endsAt_point h pen command
  unfold draw
  split
  · exact hpoint.bind fun p => endsAt_pure _
  · exact (endsAt_coordinate h _ command).bind fun x => endsAt_pure _
  · exact (endsAt_coordinate h _ command).bind fun y => endsAt_pure _
  · exact hpoint.bind fun c => hpoint.bind fun p => endsAt_pure _
  · exact hpoint.bind fun p => endsAt_pure _
  · exact hpoint.bind fun c₁ => hpoint.bind fun c₂ => hpoint.bind fun p => endsAt_pure _
  · exact hpoint.bind fun c₂ => hpoint.bind fun p => endsAt_pure _
  · exact (endsAt_arc h pen command).bind fun drawn => endsAt_pure _
  · exact endsAt_pure _
  · exact endsAt_throw rfl

theorem endsAt_segment (pen : Pen α) (command : Char) : EndsAt damage (segment pen command) := by
  unfold segment
  split
  · exact (endsAt_point h pen command).bind fun p => endsAt_pure _
  · split
    · exact endsAt_throw rfl
    · exact (endsAt_draw h _ command).bind fun drawn => endsAt_pure _

/-- No command begins with damage. -/
theorem nextCommand_append (last : Option Char) (cs : List Char) :
    nextCommand last (cs ++ damage) =
      (nextCommand last cs).map fun (command, rest) => (command, rest ++ damage) := by
  unfold nextCommand
  rw [skipSpace_append h]
  rcases skipSpace cs with _ | ⟨c, rest⟩
  · obtain ⟨c, rest, rfl⟩ := h.exists_cons
    obtain ⟨-, -, -, hminus, hpoint, hdigit, halpha⟩ := h.head c rfl
    simp [halpha, beginsArgument, hminus, hpoint, hdigit]
  · simp only [List.cons_append]
    split
    · rfl
    · split
      · rw [Option.map_map]
        rfl
      · rfl

end EndsAt

section Segments

variable {α : Type} [Scalar α] {damage : List Char}

/-- Reading ends at damage between commands, and fails at damage inside of one. -/
theorem segments_append (h : Foreign damage) (count : Nat) (pen : Pen α) (cs : List Char) :
    segments count pen (cs ++ damage) =
      (segments count pen cs).mapError ReadFault.beforeDamage := by
  induction count generalizing pen cs with
  | zero => rfl
  | succ count ih =>
    unfold segments
    rw [nextCommand_append h]
    rcases nextCommand pen.command cs with _ | ⟨command, rest⟩
    · rfl
    · simp only [Option.map_some]
      rw [endsAt_segment h pen command rest]
      rcases (segment pen command).run rest with fault | ⟨⟨drawn, pen'⟩, rest'⟩
      · rfl
      · simp only [beforeDamage, ok_bind, ih]
        rcases segments count pen' rest' with fault | path <;> rfl

/-- A text that does not begin with a letter draws nothing, whatever follows. -/
theorem segments_initial (count : Nat) {cs : List Char}
    (h : ∀ c ∈ (skipSpace cs).head?, c.isAlpha = false) :
    segments count (Pen.initial : Pen α) cs = .ok [] := by
  cases count with
  | zero => rfl
  | succ count =>
    have hnone : nextCommand (Pen.initial : Pen α).command cs = none := by
      unfold nextCommand
      rcases hcs : skipSpace cs with _ | ⟨c, rest⟩
      · rfl
      · have halpha : c.isAlpha = false := h c (by rw [hcs]; rfl)
        simp [halpha, Pen.initial]
    unfold segments
    rw [hnone]
    rfl

end Segments

end Reader

end Path

section Read

variable {α : Type} [Scalar α]

theorem Text.isAlpha_of_isBlank {c : Char} (h : isBlank c = true) : c.isAlpha = false := by
  by_contra halpha
  have hletter := toNat_of_isAlpha (Bool.not_eq_false _ ▸ halpha)
  simp only [isBlank, Bool.or_eq_true, Bool.and_eq_true, decide_eq_true_eq, beq_iff_eq] at h
  omega

namespace Path

variable {data damage : String}

theorem mem_of_mem_head?_skipSpace {cs : List Char} {c : Char}
    (h : c ∈ (Reader.skipSpace cs).head?) : c ∈ cs :=
  (List.dropWhile_suffix _).subset (List.mem_of_mem_head? h)

/-- Damage changes nothing about what is read, and adds no fault. -/
theorem read_append (h : Foreign damage.toList) (data : String) :
    (read (data ++ damage) : Except Fault (Path α)) =
      (read data).mapError (Fault.beforeDamage damage) := by
  unfold read
  simp only [String.toList_append]
  by_cases hblank : data.toList.all Text.isBlank = true
  · rw [if_pos hblank]
    have hletter : ∀ c ∈ (Reader.skipSpace (data.toList ++ damage.toList)).head?,
        c.isAlpha = false := by
      intro c hc
      rw [Reader.skipSpace_append h, List.head?_append, Option.mem_def, Option.or_eq_some_iff] at hc
      rcases hc with hdata | ⟨-, hdamage⟩
      · exact Text.isAlpha_of_isBlank
          (List.all_eq_true.mp hblank c (mem_of_mem_head?_skipSpace hdata))
      · exact (h.head c hdamage).2.2.2.2.2.2
    rw [Reader.segments_initial _ hletter]
    split <;> rfl
  · have hblank' : ¬ (data.toList ++ damage.toList).all Text.isBlank = true := by
      rw [List.all_append, Bool.and_eq_true]
      exact fun hall => hblank hall.1
    have hbound : data.toList.length ≤ (data.toList ++ damage.toList).length := by
      rw [List.length_append]
      exact Nat.le_add_right _ _
    rw [if_neg hblank, if_neg hblank', Reader.segments_append h,
      Reader.segments_eq_of_le (Nat.le_refl _) hbound Pen.repeats_initial]
    rcases Reader.segments data.toList.length Pen.initial data.toList with fault | path <;> rfl

/-- A text that begins with a letter, but not with a move. -/
theorem read_of_letter {c : Char} {rest : List Char}
    (hskip : Reader.skipSpace data.toList = c :: rest) (halpha : c.isAlpha = true)
    (hmove : c.toUpper ≠ 'M') :
    (read data : Except Fault (Path α)) = .error (.unreadable .noInitialMove data) := by
  have hmem : c ∈ data.toList := mem_of_mem_head?_skipSpace (by rw [hskip]; rfl)
  have hblank : ¬ data.toList.all Text.isBlank = true := by
    intro hall
    have := Text.isAlpha_of_isBlank (List.all_eq_true.mp hall c hmem)
    rw [halpha] at this
    cases this
  obtain ⟨count, hcount⟩ : ∃ n, data.toList.length = n + 1 :=
    Nat.exists_eq_succ_of_ne_zero (Nat.ne_of_gt (List.length_pos_of_mem hmem))
  have hnext : Reader.nextCommand (Pen.initial : Pen α).command data.toList = some (c, rest) := by
    unfold Reader.nextCommand
    rw [hskip]
    exact if_pos halpha
  have hsegment : (Reader.segment (Pen.initial : Pen α) c).run rest = .error .noInitialMove := by
    unfold Reader.segment
    rw [if_neg hmove]
    rfl
  unfold read
  simp only [if_neg hblank, hcount]
  unfold Reader.segments
  simp only [hnext, hsegment]
  rfl

/-- A text without a move is refused exactly if it begins with a letter. -/
theorem read_of_not_move (h : ∀ c ∈ data.toList, c.toUpper ≠ 'M') :
    (read data : Except Fault (Path α)) =
      if (Reader.skipSpace data.toList).head?.any Char.isAlpha then
        .error (.unreadable .noInitialMove data)
      else .ok [] := by
  split
  · next hletter =>
    rcases hskip : Reader.skipSpace data.toList with _ | ⟨c, rest⟩
    · simp [hskip] at hletter
    · simp only [hskip, List.head?_cons, Option.any_some] at hletter
      exact read_of_letter hskip hletter
        (h c (mem_of_mem_head?_skipSpace (by rw [hskip]; rfl)))
  · next hletter =>
    have hinitial : ∀ c ∈ (Reader.skipSpace data.toList).head?, c.isAlpha = false := by
      intro c hc
      rw [Option.mem_def.mp hc, Option.any_some] at hletter
      exact Bool.eq_false_iff.mpr hletter
    unfold read
    simp only [Reader.segments_initial _ hinitial]
    split <;> rfl

/-- Data that is read is placed, composed and drawn as it is where damage follows it. Damage in the
arguments of a command is a fault, and other faults stay as they are. A text without a move is
refused exactly if its first character is a letter, and draws nothing otherwise. -/
theorem read_damaged (h : Foreign damage.toList) :
    (∀ data, (read (data ++ damage) : Except Fault (Path α)) =
      (read data).mapError (Fault.beforeDamage damage)) ∧
    (∀ data path, (read data : Except Fault (Path α)) = .ok path →
      (∀ (p : Placement α) places, p.placeData places (data ++ damage) = p.placeData places data) ∧
      (∀ (slot : Slot α) before after lower upper,
        compose (lower ++ ⟨before ++ (data ++ damage) :: after, slot⟩ :: upper) =
          compose (lower ++ ⟨before ++ data :: after, slot⟩ :: upper)) ∧
      ∀ (r : Renderer α) fontSize position c,
        { r with parts := r.parts.withVariant position c (data ++ damage) }.leaf fontSize
            (some position) c =
          { r with parts := r.parts.withVariant position c data }.leaf fontSize
            (some position) c) ∧
    ∀ text : String, (∀ c ∈ text.toList, c.toUpper ≠ 'M') →
      (read text : Except Fault (Path α)) =
        if (Reader.skipSpace text.toList).head?.any Char.isAlpha then
          .error (.unreadable .noInitialMove text)
        else .ok [] := by
  refine ⟨read_append h, fun data path hread => ?_, fun text => read_of_not_move⟩
  have hplace : ∀ (p : Placement α) places,
      p.placeData places (data ++ damage) = p.placeData places data := by
    intro p places
    unfold Placement.placeData
    rw [read_append h, hread]
    rfl
  have hplaceAll : ∀ (p : Placement α) before after,
      p.placeAll (before ++ (data ++ damage) :: after) = p.placeAll (before ++ data :: after) := by
    intro p before after
    unfold Placement.placeAll
    simp only [List.mapM_append, List.mapM_cons, hplace]
  refine ⟨hplace, fun slot before after lower upper => ?_, fun r fontSize position c => ?_⟩
  · unfold compose
    simp only [List.mapM_append, List.mapM_cons, hplaceAll]
  · have hvariant := hplaceAll (Placement.scaled (fontSize / variantSide)) [] []
    simp only [List.nil_append] at hvariant
    simp [Renderer.leaf, Parts.variant?_withVariant, hvariant]

end Path

end Read

namespace Path

/-- The same damage behind a line and in the middle of one. Only the second is a fault. -/
theorem read_damaged_line :
    let damage := "#L8 0Z"
    let r : Renderer Double := { source := .squares [] 1000.0 1000.0 }
    let sound := { r with parts := r.parts.withVariant .left '口' "M0 0L8 8" }
    let damaged := { r with parts := r.parts.withVariant .left '口' "M0 0L8 8#L8 0Z" }
    Foreign damage.toList ∧
      (read ("M0 0L8 8" ++ damage) : Except Fault (Path Double)) = read "M0 0L8 8" ∧
      (read ("M0 0L8" ++ damage) : Except Fault (Path Double)) =
        .error (.unreadable .notANumber "M0 0L8#L8 0Z") ∧
      damaged.leaf 36.0 (some .left) '口' = sound.leaf 36.0 (some .left) '口' ∧
      (sound.leaf 36.0 (some .left) '口').outcome = .ok ["M0 0L4 4"] ∧
      (read "12 34" : Except Fault (Path Double)) = .ok [] ∧
      (read "b12 34" : Except Fault (Path Double)) =
        .error (.unreadable .noInitialMove "b12 34") := by
  intro damage r sound damaged
  have hdamage : Foreign damage.toList := by decide +kernel
  have hline : (read "M0 0L8 8" : Except Fault (Path Double)) =
      .ok [.moveTo ⟨0.0, 0.0⟩, .lineTo ⟨8.0, 8.0⟩] := by decide +kernel
  have hcut : (read "M0 0L8" : Except Fault (Path Double)) =
      .error (.unreadable .unexpectedEnd "M0 0L8") := by decide +kernel
  have hdigits : ("12 34".toList.all (·.toUpper != 'M')) = true := by decide +kernel
  have hletter : ("b12 34".toList.all (·.toUpper != 'M')) = true := by decide +kernel
  simp only [List.all_eq_true, bne_iff_ne] at hdigits hletter
  obtain ⟨hread, hsound, hnot⟩ := read_damaged (α := Double) hdamage
  obtain ⟨-, -, hleaf⟩ := hsound _ _ hline
  refine ⟨hdamage, ?_, ?_, hleaf r 36.0 .left '口', by decide +kernel, ?_, ?_⟩
  · rw [hread, hline]
    rfl
  · rw [hread, hcut]
    rfl
  · exact hnot "12 34" hdigits
  · exact hnot "b12 34" hletter

/-- Damage behind a line is dropped with all that follows it, and so is a text without letters. -/
theorem read_dropped :
    Foreign "#L8 0Z".toList ∧
      (read "M0 0L8 8" : Except Fault (Path Double)) =
        .ok [.moveTo ⟨0.0, 0.0⟩, .lineTo ⟨8.0, 8.0⟩] ∧
      (read ("M0 0L8 8" ++ "#L8 0Z") : Except Fault (Path Double)) =
        .ok [.moveTo ⟨0.0, 0.0⟩, .lineTo ⟨8.0, 8.0⟩] ∧
      (∀ c ∈ "12 34".toList, c.isAlpha = false) ∧
      (read "12 34" : Except Fault (Path Double)) = .ok [] := by
  have hletters : ("12 34".toList.all (!·.isAlpha)) = true := by decide +kernel
  simp only [List.all_eq_true, Bool.not_eq_true'] at hletters
  exact ⟨by decide +kernel, by decide +kernel, by decide +kernel, hletters, by decide +kernel⟩

end Path

end Ideograph
